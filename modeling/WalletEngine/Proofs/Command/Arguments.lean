import Mathlib.Data.List.Perm.Subperm
import WalletEngine.Command.Invocation

/-! # What becomes of each argument

An argument behind an option that takes a value is that value, whatever it looks like; any other one
is told by its spelling. So each argument has one use, and what an invocation says is told by the
uses: the positional arguments in their order, and for each option the last value that it was given.
An option that is put in between with all that belongs to it leaves the uses of the others alone,
unless it is put between another option and its value.
-/

namespace WalletEngine.Command

variable {arg : String} {args before after inserted : List String}

/-! ## Spellings -/

def Flag.names : Flag → List String
  | .help => ["--help", "-h"]
  | .version => ["--version", "-V"]
  | .json => ["--json"]
  | .pretty => ["--pretty"]

def Valued.names : Valued → List String
  | .nodeUrl => ["--node"]
  | .simulatorUrl => ["--simulator"]
  | .dataDirectory => ["--data-dir", "-d"]
  | .port => ["--port", "-p"]

/-- The argument is spelled like no option. -/
structure IsUnnamed (arg : String) : Prop where
  notMem_flag (flag : Flag) : arg ∉ flag.names
  notMem_valued (option : Valued) : arg ∉ option.names

/-- The argument does not start with a dash, or is a number. -/
def IsPlain (arg : String) : Prop :=
  arg.startsWith "-" = false ∨ (Decimal.Literal.parse? arg).isSome = true

/-- What an argument is by its spelling. -/
inductive Spelled (arg : String) : Argument → Prop
  | flag (flag : Flag) (hname : arg ∈ flag.names) : Spelled arg (.flag flag)
  | valued (option : Valued) (hname : arg ∈ option.names) : Spelled arg (.valued option)
  | positional (hunnamed : IsUnnamed arg) (hplain : IsPlain arg) : Spelled arg .positional
  | ignored (hunnamed : IsUnnamed arg) (hplain : ¬IsPlain arg) : Spelled arg .ignored

theorem spelled_of (arg : String) : Spelled arg (Argument.of arg) := by
  rw [Argument.of]
  split_ifs with hhelp hversion hjson hpretty hnode hsimulator hdirectory hport hplain
  · exact .flag .help (by simpa [Flag.names] using hhelp)
  · exact .flag .version (by simpa [Flag.names] using hversion)
  · exact .flag .json (by simpa [Flag.names] using hjson)
  · exact .flag .pretty (by simpa [Flag.names] using hpretty)
  · exact .valued .nodeUrl (by simpa [Valued.names] using hnode)
  · exact .valued .simulatorUrl (by simpa [Valued.names] using hsimulator)
  · exact .valued .dataDirectory (by simpa [Valued.names] using hdirectory)
  · exact .valued .port (by simpa [Valued.names] using hport)
  all_goals
    have hunnamed : IsUnnamed arg := by
      constructor
      · intro flag
        cases flag with
        | help => simpa [Flag.names] using hhelp
        | version => simpa [Flag.names] using hversion
        | json => simpa [Flag.names] using hjson
        | pretty => simpa [Flag.names] using hpretty
      · intro option
        cases option with
        | nodeUrl => simpa [Valued.names] using hnode
        | simulatorUrl => simpa [Valued.names] using hsimulator
        | dataDirectory => simpa [Valued.names] using hdirectory
        | port => simpa [Valued.names] using hport
  · exact .positional hunnamed (by simpa [IsPlain] using hplain)
  · exact .ignored hunnamed (by simpa [IsPlain] using hplain)

/-- No two options share a name. -/
theorem of_flag_name {flag : Flag} (h : arg ∈ flag.names) : Argument.of arg = .flag flag := by
  have hall : ∀ name ∈ flag.names, Argument.of name = .flag flag := by
    cases flag <;> decide +kernel
  exact hall arg h

theorem of_valued_name {option : Valued} (h : arg ∈ option.names) :
    Argument.of arg = .valued option := by
  have hall : ∀ name ∈ option.names, Argument.of name = .valued option := by
    cases option <;> decide +kernel
  exact hall arg h

theorem of_eq_valued_iff {option : Valued} :
    Argument.of arg = .valued option ↔ arg ∈ option.names := by
  refine ⟨fun h => ?_, of_valued_name⟩
  have hspelled := spelled_of arg
  rw [h] at hspelled
  cases hspelled with
  | valued _ hname => exact hname

theorem of_eq_positional_iff : Argument.of arg = .positional ↔ IsUnnamed arg ∧ IsPlain arg := by
  have hspelled := spelled_of arg
  constructor
  · intro h
    rw [h] at hspelled
    cases hspelled with
    | positional hunnamed hplain => exact ⟨hunnamed, hplain⟩
  · rintro ⟨hunnamed, hplain⟩
    generalize Argument.of arg = argument at hspelled ⊢
    cases hspelled with
    | flag flag hname => exact absurd hname (hunnamed.notMem_flag flag)
    | valued option hname => exact absurd hname (hunnamed.notMem_valued option)
    | positional => rfl
    | ignored _ hnot => exact absurd hplain hnot

/-! ## Uses -/

/-- What an argument is used for. -/
inductive Use where
  | flag (flag : Flag)
  /-- An option that takes a value. -/
  | option (option : Valued)
  /-- The value of the option in front of it. -/
  | value (option : Valued)
  | positional
  | ignored
  deriving DecidableEq

/-- The use of an argument that no option takes as its value. -/
def Use.ofArgument : Argument → Use
  | .flag which => .flag which
  | .valued which => .option which
  | .positional => .positional
  | .ignored => .ignored

/-- The use of an argument behind one that is used as `last`. -/
def Use.behind (last : Option Use) (arg : String) : Use :=
  match last with
  | some (.option which) => .value which
  | _ => .ofArgument (.of arg)

theorem Use.behind_none (arg : String) : Use.behind none arg = .ofArgument (.of arg) := rfl

/-- The uses of arguments behind one that is used as `last`. -/
def usesBehind (last : Option Use) : List String → List Use
  | [] => []
  | arg :: rest => .behind last arg :: usesBehind (some (.behind last arg)) rest

/-- The uses of arguments, one for each. -/
def uses (args : List String) : List Use := usesBehind none args

/-- The arguments that are used in a way, in their order. -/
def usedAs (use : Use) (args : List String) : List String :=
  ((args.zip (uses args)).filter (·.2 = use)).map Prod.fst

/-- The last of the arguments is an option that takes a value, and so waits for it. -/
def Waits (last : Option Use) : Prop := ∃ option, last = some (.option option)

theorem Use.behind_of_not_waits {last : Option Use} (h : ¬Waits last) (arg : String) :
    Use.behind last arg = .ofArgument (.of arg) := by
  unfold behind
  split
  next which => exact absurd ⟨which, rfl⟩ h
  next => rfl

/-- Behind an argument that does not wait the others are used as if they were the first ones. -/
theorem usesBehind_of_not_waits {last : Option Use} (h : ¬Waits last) (args : List String) :
    usesBehind last args = uses args := by
  cases args with
  | nil => rfl
  | cons arg rest =>
      have hfirst : Use.behind none arg = Use.behind last arg := by
        rw [Use.behind_of_not_waits h]
        rfl
      rw [uses, usesBehind, usesBehind, hfirst]

@[simp] theorem length_usesBehind (last : Option Use) (args : List String) :
    (usesBehind last args).length = args.length := by
  induction args generalizing last with
  | nil => rfl
  | cons arg rest ih => rw [usesBehind, List.length_cons, ih, List.length_cons]

theorem length_uses (args : List String) : (uses args).length = args.length :=
  length_usesBehind none args

theorem usesBehind_append (last : Option Use) (before after : List String) :
    usesBehind last (before ++ after) = usesBehind last before ++
      usesBehind ((usesBehind last before).getLast?.or last) after := by
  induction before generalizing last with
  | nil => rfl
  | cons arg rest ih =>
      rw [List.cons_append, usesBehind, usesBehind, ih, List.cons_append, List.getLast?_cons]
      cases hlast : (usesBehind (some (Use.behind last arg)) rest).getLast? <;> rfl

theorem uses_append (h : ¬Waits (uses before).getLast?) (after : List String) :
    uses (before ++ after) = uses before ++ uses after := by
  rw [uses, usesBehind_append, Option.or_none, ← uses, usesBehind_of_not_waits h]

theorem Use.ofArgument_eq_option_iff {argument : Argument} {which : Valued} :
    Use.ofArgument argument = .option which ↔ argument = .valued which := by
  cases argument <;> simp [ofArgument]

theorem uses_cons (hof : ∀ which, Argument.of arg ≠ .valued which) (rest : List String) :
    uses (arg :: rest) = .ofArgument (.of arg) :: uses rest := by
  have hwaits : ¬Waits (some (.ofArgument (.of arg))) := by
    rintro ⟨which, hoption⟩
    exact hof which (Use.ofArgument_eq_option_iff.mp (Option.some.inj hoption))
  rw [uses, usesBehind]
  exact congrArg _ (usesBehind_of_not_waits hwaits rest)

theorem uses_cons_cons {which : Valued} (hof : Argument.of arg = .valued which)
    (value : String) (rest : List String) :
    uses (arg :: value :: rest) = .option which :: .value which :: uses rest := by
  have hwaits : ¬Waits (some (.value which)) := by
    rintro ⟨_, ⟨⟩⟩
  rw [uses, usesBehind, usesBehind, Use.behind_none, hof]
  exact congrArg _ (congrArg _ (usesBehind_of_not_waits hwaits rest))

/-- Arguments that do not end with a waiting option are used as if nothing were behind them. -/
theorem usedAs_append (h : ¬Waits (uses before).getLast?) (use : Use) (after : List String) :
    usedAs use (before ++ after) = usedAs use before ++ usedAs use after := by
  rw [usedAs, uses_append h, List.zip_append (length_uses before).symm, List.filter_append, List.map_append]
  rfl

/-- Different uses take up different arguments. -/
theorem flatMap_filter_subperm (used : List (String × Use)) {kinds : List Use}
    (h : kinds.Nodup) :
    (kinds.flatMap fun use => (used.filter (·.2 = use)).map Prod.fst).Subperm
      (used.map Prod.fst) := by
  induction kinds generalizing used with
  | nil => exact List.nil_subperm
  | cons use rest ih =>
      obtain ⟨hnotMem, hrest⟩ := List.nodup_cons.mp h
      let others := used.filter fun argument => !decide (argument.2 = use)
      have hothers : (rest.flatMap fun other => (used.filter (·.2 = other)).map Prod.fst) =
          rest.flatMap fun other => (others.filter (·.2 = other)).map Prod.fst := by
        refine List.flatMap_congr fun other hmem => congrArg _ ?_
        rw [List.filter_filter]
        refine List.filter_congr fun argument _ => ?_
        have hne : other ≠ use := fun heq => hnotMem (heq ▸ hmem)
        by_cases heq : argument.2 = other <;> simp [heq, hne]
      have hsplit : ((used.filter (·.2 = use)).map Prod.fst ++ others.map Prod.fst).Perm
          (used.map Prod.fst) := by
        rw [← List.map_append]
        exact (List.filter_append_perm (·.2 = use) used).map Prod.fst
      rw [List.flatMap_cons, hothers]
      exact ((List.subperm_append_left _).mpr (ih others hrest)).trans hsplit.subperm

/-- Every argument is used at most once. -/
theorem flatMap_usedAs_subperm (args : List String) {kinds : List Use} (h : kinds.Nodup) :
    (kinds.flatMap fun use => usedAs use args).Subperm args := by
  have hsubperm := flatMap_filter_subperm (args.zip (uses args)) h
  rwa [List.map_fst_zip (Nat.le_of_eq (length_uses args).symm)] at hsubperm

theorem Use.spelled_of_behind {last : Option Use} {which : Valued}
    (h : Use.behind last arg = .option which) : arg ∈ which.names := by
  unfold behind at h
  split at h
  next => cases h
  next => exact of_eq_valued_iff.mp (ofArgument_eq_option_iff.mp h)

/-- An option that waits is spelled as one. -/
theorem Waits.spelled (h : Waits (uses args).getLast?) :
    ∃ arg which, args.getLast? = some arg ∧ arg ∈ Valued.names which := by
  obtain ⟨which, hlast⟩ := h
  rcases args.eq_nil_or_concat with rfl | ⟨init, arg, rfl⟩
  · cases hlast
  · rw [List.concat_eq_append, uses, usesBehind_append, usesBehind, usesBehind,
      List.getLast?_concat] at hlast
    refine ⟨arg, which, ?_, Use.spelled_of_behind (Option.some.inj hlast)⟩
    rw [List.concat_eq_append, List.getLast?_concat]

/-! ## What is said by the uses -/

namespace Invocation

/-- The invocation with one more argument that is used in this way. -/
def withUse (i : Invocation) : String × Use → Invocation
  | (_, .flag which) => i.withFlag which
  | (arg, .value which) => i.withValue arg which
  | (arg, .positional) => i.withPositional arg
  | (_, .option _) => i
  | (_, .ignored) => i

/-- The arguments are taken one by one, each as it is used. -/
theorem scan_eq_foldl (i : Invocation) (args : List String) :
    i.scan args = (args.zip (uses args)).foldl withUse i := by
  fun_induction scan i args with
  | case1 i => rfl
  | case2 i arg rest which hof ih =>
      rw [ih, uses_cons (by simp [hof]), hof]
      rfl
  | case3 i arg value rest which hof ih =>
      rw [ih, uses_cons_cons hof]
      rfl
  | case4 i arg which hof =>
      rw [uses, usesBehind, usesBehind, Use.behind_none, hof]
      rfl
  | case5 i arg rest hof ih =>
      rw [ih, uses_cons (by simp [hof]), hof]
      rfl
  | case6 i arg rest hof ih =>
      rw [ih, uses_cons (by simp [hof]), hof]
      rfl

theorem positionals_foldl (i : Invocation) (used : List (String × Use)) :
    (used.foldl withUse i).positionals =
      i.positionals ++ (used.filter (·.2 = .positional)).map Prod.fst := by
  induction used generalizing i with
  | nil => simp
  | cons argument rest ih =>
      obtain ⟨arg, use⟩ := argument
      rw [List.foldl_cons, ih]
      cases use with
      | positional => simp [withUse, withPositional]
      | flag flag => cases flag <;> simp [withUse, withFlag]
      | value option => cases option <;> simp [withUse, withValue]
      | option | ignored => simp [withUse]

variable {α : Type} {option : Valued} {read : String → α} {get : Invocation → α}

/-- What only the values of one option tell an invocation is told by the last of them. -/
theorem get_foldl (hflag : ∀ (i : Invocation) flag, get (i.withFlag flag) = get i)
    (hpositional : ∀ (i : Invocation) arg, get (i.withPositional arg) = get i)
    (hvalue : ∀ (i : Invocation) value other,
      get (i.withValue value other) = if other = option then read value else get i)
    (i : Invocation) (used : List (String × Use)) :
    get (used.foldl withUse i) =
      ((used.filter (·.2 = .value option)).map Prod.fst).getLast?.elim (get i) read := by
  induction used generalizing i with
  | nil => rfl
  | cons argument rest ih =>
      obtain ⟨arg, use⟩ := argument
      rw [List.foldl_cons, ih]
      by_cases huse : use = .value option
      · have hget : get (i.withUse (arg, use)) = read arg := by
          rw [huse, withUse, hvalue, if_pos rfl]
        rw [hget, List.filter_cons_of_pos (by simpa using huse), List.map_cons,
          List.getLast?_cons]
        cases ((rest.filter (·.2 = .value option)).map Prod.fst).getLast? <;> rfl
      · have hget : get (i.withUse (arg, use)) = get i := by
          cases use with
          | flag flag => exact hflag i flag
          | positional => exact hpositional i arg
          | value other => rw [withUse, hvalue, if_neg fun heq => huse (congrArg _ heq)]
          | option | ignored => rfl
        rw [hget, List.filter_cons_of_neg (by simpa using huse)]

theorem get_scan (option : Valued) (read : String → Option α) (get : Invocation → Option α)
    (hnone : get {} = none) (hflag : ∀ (i : Invocation) flag, get (i.withFlag flag) = get i)
    (hpositional : ∀ (i : Invocation) arg, get (i.withPositional arg) = get i)
    (hvalue : ∀ (i : Invocation) value other,
      get (i.withValue value other) = if other = option then read value else get i)
    (args : List String) :
    get (scan {} args) = (usedAs (.value option) args).getLast?.bind read := by
  rw [scan_eq_foldl, get_foldl hflag hpositional hvalue, hnone, ← usedAs]
  cases (usedAs (.value option) args).getLast? <;> rfl

theorem nodeUrl_scan (args : List String) :
    (scan {} args).nodeUrl = (usedAs (.value .nodeUrl) args).getLast? := by
  rw [get_scan .nodeUrl some nodeUrl rfl (by rintro _ ⟨⟩ <;> rfl) (fun _ _ => rfl)
    (by rintro _ _ ⟨⟩ <;> rfl), Option.bind_fun_some]

theorem simulatorUrl_scan (args : List String) :
    (scan {} args).simulatorUrl = (usedAs (.value .simulatorUrl) args).getLast? := by
  rw [get_scan .simulatorUrl some simulatorUrl rfl (by rintro _ ⟨⟩ <;> rfl) (fun _ _ => rfl)
    (by rintro _ _ ⟨⟩ <;> rfl), Option.bind_fun_some]

theorem dataDirectory_scan (args : List String) :
    (scan {} args).dataDirectory = (usedAs (.value .dataDirectory) args).getLast? := by
  rw [get_scan .dataDirectory some dataDirectory rfl (by rintro _ ⟨⟩ <;> rfl) (fun _ _ => rfl)
    (by rintro _ _ ⟨⟩ <;> rfl), Option.bind_fun_some]

theorem readPort_eq_some_iff {text : String} {port : UInt16} :
    readPort text = some port ↔ Decimal.IsNumeral text port.toNat := by
  rw [readPort, Option.map_eq_some_iff]
  constructor
  · rintro ⟨n, hn, rfl⟩
    obtain ⟨hnumeral, hlt⟩ := Decimal.natural?_eq_some_iff.mp hn
    rwa [UInt16.toNat_ofNat_of_lt' hlt]
  · intro hnumeral
    exact ⟨port.toNat, Decimal.natural?_eq_some_iff.mpr ⟨hnumeral, port.toNat_lt_size⟩,
      UInt16.ofNat_toNat⟩

theorem port_scan (args : List String) :
    (scan {} args).port = (usedAs (.value .port) args).getLast?.bind readPort :=
  get_scan .port readPort port rfl (by rintro _ ⟨⟩ <;> rfl) (fun _ _ => rfl)
    (by rintro _ _ ⟨⟩ <;> rfl) args

theorem positionals_scan (args : List String) :
    (scan {} args).positionals = usedAs .positional args := by
  rw [scan_eq_foldl, positionals_foldl]
  rfl

end Invocation

/-! ## An option put in between -/

/-- The arguments are one option with all that belongs to it. -/
inductive IsWhole : List String → Prop
  | flag {arg : String} {flag : Flag} (hname : arg ∈ flag.names) : IsWhole [arg]
  | valued {arg value : String} {option : Valued} (hname : arg ∈ option.names) :
      IsWhole [arg, value]

theorem uses_flag {flag : Flag} (hname : arg ∈ flag.names) : uses [arg] = [.flag flag] := by
  rw [uses_cons (by simp [of_flag_name hname]), of_flag_name hname]
  rfl

theorem uses_valued {option : Valued} (hname : arg ∈ option.names) (value : String) :
    uses [arg, value] = [.option option, .value option] :=
  uses_cons_cons (of_valued_name hname) value []

theorem IsWhole.usedAs_positional (h : IsWhole inserted) : usedAs .positional inserted = [] := by
  cases h with
  | flag hname =>
      rw [usedAs, uses_flag hname]
      rfl
  | valued hname =>
      rw [usedAs, uses_valued hname]
      rfl

theorem IsWhole.not_waits (h : IsWhole inserted) : ¬Waits (uses inserted).getLast? := by
  cases h with
  | flag hname =>
      rw [uses_flag hname]
      rintro ⟨_, ⟨⟩⟩
  | valued hname =>
      rw [uses_valued hname]
      rintro ⟨_, ⟨⟩⟩

theorem usedAs_positional_insert (hinserted : IsWhole inserted)
    (hbefore : ¬Waits (uses before).getLast?) :
    usedAs .positional (before ++ inserted ++ after) = usedAs .positional (before ++ after) := by
  rw [List.append_assoc, usedAs_append hbefore, usedAs_append hinserted.not_waits,
    hinserted.usedAs_positional, List.nil_append, usedAs_append hbefore]

/-! ## Every list of arguments -/

namespace Invocation

/-- The command and its arguments are the positional arguments, each option has the last value that
it was given, no argument is used twice, and an option put in between takes nothing from the
command. -/
theorem arguments_by_use (env : Environment) (args : List String) :
    (parse env args).command? = (usedAs .positional args).head? ∧
    (parse env args).arguments = (usedAs .positional args).tail ∧
    (∀ arg, (Argument.of arg = .positional ↔ IsUnnamed arg ∧ IsPlain arg) ∧
      ∀ option, Argument.of arg = .valued option ↔ arg ∈ option.names) ∧
    (∀ kinds : List Use, kinds.Nodup → (kinds.flatMap (usedAs · args)).Subperm args) ∧
    (∀ before : List String, Waits (uses before).getLast? →
      ∃ arg option, before.getLast? = some arg ∧ arg ∈ Valued.names option) ∧
    (∀ before inserted after, before ++ after = args → IsWhole inserted →
      ¬Waits (uses before).getLast? →
      (parse env (before ++ inserted ++ after)).command? = (parse env args).command? ∧
      (parse env (before ++ inserted ++ after)).arguments = (parse env args).arguments) ∧
    (parse env args).nodeUrl = (usedAs (.value .nodeUrl) args).getLast? ∧
    (parse env args).simulatorUrl = (usedAs (.value .simulatorUrl) args).getLast? ∧
    (parse env args).dataDirectory = (usedAs (.value .dataDirectory) args).getLast? ∧
    (parse env args).port =
      ((usedAs (.value .port) args).getLast?.bind readPort <|>
        (env.get? "DRIFTWALLET_PORT").bind readPort) ∧
    ∀ text port, readPort text = some port ↔ Decimal.IsNumeral text port.toNat := by
  have hpositionals (args : List String) :
      (parse env args).positionals = usedAs .positional args := positionals_scan args
  have hport : (parse env args).port =
      ((scan {} args).port <|> (env.get? "DRIFTWALLET_PORT").bind readPort) := rfl
  refine ⟨?command, ?arguments, fun arg => ⟨of_eq_positional_iff, fun _ => of_eq_valued_iff⟩,
    fun kinds hnodup => flatMap_usedAs_subperm args hnodup, fun _ => Waits.spelled, ?inserted,
    nodeUrl_scan args, simulatorUrl_scan args, dataDirectory_scan args, port_scan args ▸ hport,
    fun _ _ => readPort_eq_some_iff⟩
  case command => rw [command?, hpositionals]
  case arguments => rw [arguments, hpositionals, List.drop_one]
  case inserted =>
    rintro before inserted after rfl hinserted hbefore
    have hsame : (parse env (before ++ inserted ++ after)).positionals =
        (parse env (before ++ after)).positionals := by
      rw [hpositionals, hpositionals, usedAs_positional_insert hinserted hbefore]
    rw [command?, command?, arguments, arguments, hsame]
    exact ⟨rfl, rfl⟩

/-- An option is put behind the value of another one, which looks like an option itself. -/
theorem arguments_by_use_sample :
    let args := ["send", "--node", "--json", "bb", "-5", "-x", "--port"]
    let before := ["send", "--node", "--json"]
    let after := ["bb", "-5", "-x", "--port"]
    (parse [] args).command? = some "send" ∧ (parse [] args).arguments = ["bb", "-5"] ∧
      (parse [] args).nodeUrl = some "--json" ∧ (parse [] args).port = none ∧
      (["send", "bb", "-5"] ++ ["--json"]).Subperm args ∧
      (∃ arg option, args.getLast? = some arg ∧ arg ∈ Valued.names option) ∧
      IsWhole ["-p", "80"] ∧ ¬Waits (uses before).getLast? ∧
      (parse [] (before ++ ["-p", "80"] ++ after)).arguments = ["bb", "-5"] := by
  intro args before after
  obtain ⟨hcommand, harguments, -, hsubperm, hspelled, hinserted, hnode, -, -, hport, -⟩ :=
    arguments_by_use [] args
  have hpositional : usedAs .positional args = ["send", "bb", "-5"] := by decide +kernel
  have hvalue : usedAs (.value .nodeUrl) args = ["--json"] := by decide +kernel
  have hwaits : (uses args).getLast? = some (.option .port) := by decide +kernel
  have hbefore : (uses before).getLast? = some (.value .nodeUrl) := by decide +kernel
  have hnotWaits : ¬Waits (uses before).getLast? := by
    rw [hbefore]
    rintro ⟨_, ⟨⟩⟩
  have hwhole : IsWhole ["-p", "80"] := @IsWhole.valued "-p" "80" .port (by decide)
  have hkinds := hsubperm [.positional, .value .nodeUrl] (by decide)
  have hsame := (hinserted before ["-p", "80"] after rfl hwhole hnotWaits).2
  rw [hpositional] at hcommand harguments
  rw [hvalue] at hnode
  refine ⟨hcommand, harguments, hnode, ?_, ?_, hspelled args ⟨_, hwaits⟩, hwhole, hnotWaits,
    hsame.trans harguments⟩
  · rw [hport]
    decide +kernel
  · rwa [List.flatMap_cons, List.flatMap_cons, hpositional, hvalue] at hkinds

end Invocation
end WalletEngine.Command
