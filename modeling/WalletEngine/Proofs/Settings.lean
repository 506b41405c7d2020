import Mathlib.Data.List.Basic
import WalletEngine.Proofs.Store.Paths
import WalletEngine.Proofs.Text.Trimming
import WalletEngine.Settings

/-! # What the environment decides

Settings are read from seven variables. Six of them are trimmed, so blanks around a value count for
nothing and a blank value counts as unset. The seventh names the directory under which data is kept
by default, and is taken as it is: there every blank counts, unless the directory of the data is named
itself. Whatever was read, and whatever overrides it, the timers have periods above zero.
-/

namespace WalletEngine
open Text (IsBlank)

variable {env other : Environment} {home : Option String} {name value before after : String}

/-! ## Environments that differ in one variable -/

namespace Environment

/-- Only the variable of this name may have another value. -/
def AgreeBut (name : String) (env other : Environment) : Prop :=
  ∀ var ≠ name, other.value? var = env.value? var

theorem agreeBut_unset (name : String) (env : Environment) : AgreeBut name env (env.unset name) := by
  intro var hne
  rw [value?_unset, if_neg hne]

theorem agreeBut_set (name value : String) (env : Environment) :
    AgreeBut name env (env.set name value) := by
  intro var hne
  rw [value?_set, if_neg hne]

theorem AgreeBut.trans {third : Environment} (h : AgreeBut name other env)
    (hthird : AgreeBut name other third) : AgreeBut name env third := by
  intro var hne
  rw [h var hne, hthird var hne]

theorem AgreeBut.get? {var : String} (h : AgreeBut name env other) (hne : var ≠ name) :
    other.get? var = env.get? var := by
  rw [Environment.get?, Environment.get?, h var hne]

theorem AgreeBut.path? {var : String} (h : AgreeBut name env other) (hne : var ≠ name) :
    other.path? var = env.path? var := by
  rw [Environment.path?, Environment.path?, h var hne]

theorem AgreeBut.text? {var : String} (h : AgreeBut name env other) (hne : var ≠ name) :
    other.text? var = env.text? var := by
  rw [Environment.text?, Environment.text?, h.get? hne]

theorem get?_set_self (env : Environment) (name value : String) :
    (env.set name value).get? name = some value := by
  rw [get?, value?_set, if_pos rfl]
  rfl

theorem get?_unset_self (env : Environment) (name : String) : (env.unset name).get? name = none := by
  rw [get?, value?_unset, if_pos rfl]
  rfl

/-- A blank value counts as no value. -/
theorem text?_of_isBlank (h : env.get? name = some value) (hblank : IsBlank value) :
    env.text? name = none := by
  rw [text?, h, Option.map_some, Text.trim_of_isBlank hblank]
  rfl

theorem text?_unset_self (env : Environment) (name : String) : (env.unset name).text? name = none := by
  rw [text?, get?_unset_self]
  rfl

/-- Blanks around a value do not count. -/
theorem text?_set_append (hbefore : IsBlank before) (hafter : IsBlank after) :
    (env.set name (before ++ value ++ after)).text? name = (env.set name value).text? name := by
  rw [text?, text?, get?_set_self, get?_set_self, Option.map_some, Option.map_some,
    Text.trim_append hbefore hafter]

end Environment

namespace Settings
open Environment

/-! ## The variables that settings are read from -/

/-- The directory under which data is kept by default. -/
def rootVariable : String := "DRIFTWALLET_ROOT"

/-- The directory of the data. -/
def directoryVariable : String := "DRIFTWALLET_DATA_DIR"

/-- The variables that count without the blanks around them. -/
def trimmedVariables : List String :=
  ["DRIFTWALLET_NODE_URL", "DRIFTWALLET_SIMULATOR_URL", directoryVariable,
   "DRIFTWALLET_REFRESH_SECS", "DRIFTWALLET_HEALTH_SECS", "DRIFTWALLET_TIMEOUT_SECS"]

/-- All of them. -/
def readVariables : List String := rootVariable :: trimmedVariables

/-- The default directory is used if no other one is named; all else is told by the trimmed values. -/
theorem ofEnvironment_eq_iff
    (htext : ∀ var ∈ trimmedVariables, other.text? var = env.text? var) :
    ofEnvironment other home = ofEnvironment env home ↔
      (env.text? directoryVariable).isSome ∨
        defaultDirectory other home = defaultDirectory env home := by
  have hseconds : ∀ var ∈ trimmedVariables, other.seconds? var = env.seconds? var :=
    fun var hmem => by rw [seconds?, seconds?, htext var hmem]
  have hsame : ofEnvironment other home =
      { ofEnvironment env home with dataDirectory := (ofEnvironment other home).dataDirectory } := by
    simp only [ofEnvironment, default]
    rw [htext "DRIFTWALLET_NODE_URL" (by decide), htext "DRIFTWALLET_SIMULATOR_URL" (by decide),
      hseconds "DRIFTWALLET_REFRESH_SECS" (by decide),
      hseconds "DRIFTWALLET_HEALTH_SECS" (by decide),
      hseconds "DRIFTWALLET_TIMEOUT_SECS" (by decide)]
  have hdirectory : ∀ e, (ofEnvironment e home).dataDirectory =
      (e.text? directoryVariable).getD (defaultDirectory e home) := fun _ => rfl
  have hiff : ofEnvironment other home = ofEnvironment env home ↔
      (ofEnvironment other home).dataDirectory = (ofEnvironment env home).dataDirectory := by
    constructor
    · exact congrArg dataDirectory
    · intro h
      rw [hsame, h]
  rw [hiff, hdirectory, hdirectory, htext directoryVariable (by decide)]
  cases env.text? directoryVariable <;> simp

theorem userDataDirectory_of_agree (h : AgreeBut name env other) (hname : name ∈ readVariables)
    (home : Option String) : other.userDataDirectory home = env.userDataDirectory home := by
  have houtside : ∀ var, var ∉ readVariables → var ≠ name :=
    fun var hvar heq => hvar (heq ▸ hname)
  rw [userDataDirectory, userDataDirectory, homeDirectory?, homeDirectory?,
    h.path? (houtside "XDG_DATA_HOME" (by decide)), h.path? (houtside "HOME" (by decide))]

/-- A trimmed variable decides nothing but by its trimmed value. -/
theorem ofEnvironment_of_text (hname : name ∈ trimmedVariables) (h : AgreeBut name env other)
    (htext : other.text? name = env.text? name) :
    ofEnvironment other home = ofEnvironment env home := by
  have hroot : rootVariable ≠ name := by
    rintro rfl
    exact absurd hname (by decide)
  refine (ofEnvironment_eq_iff fun var _ => ?_).mpr (.inr ?_)
  · by_cases hvar : var = name
    · rw [hvar, htext]
    · exact h.text? hvar
  · have hget : other.get? "DRIFTWALLET_ROOT" = env.get? "DRIFTWALLET_ROOT" := h.get? hroot
    rw [defaultDirectory, defaultDirectory, hget,
      userDataDirectory_of_agree h (List.mem_cons_of_mem _ hname)]

/-- The root decides nothing but the default directory. -/
theorem ofEnvironment_eq_iff_of_root (h : AgreeBut rootVariable env other) :
    ofEnvironment other home = ofEnvironment env home ↔
      (env.text? directoryVariable).isSome ∨
        defaultDirectory other home = defaultDirectory env home := by
  refine ofEnvironment_eq_iff fun var hvar => h.text? ?_
  rintro rfl
  exact absurd hvar (by decide)

/-! ## Directories with blanks -/

/-- The name of the directory of the data within the root. -/
def dataName : String := "driftwallet"

theorem defaultDirectory_eq (env : Environment) (home : Option String) :
    defaultDirectory env home =
      joinPath ((env.get? rootVariable).getD (env.userDataDirectory home)) dataName := rfl

theorem joinPath_dataName {directory : String} (h : directory ≠ "") :
    (joinPath directory dataName).toList =
      directory.toList ++ (separator directory ++ dataName.toList) :=
  toList_joinPath h (by decide)

/-- What stands between a directory and a name is no blank. -/
theorem countP_separator (directory : String) : (separator directory).countP Text.isBlank = 0 := by
  rw [separator]
  split <;> decide

/-- The blanks of a directory are those of its path. -/
theorem countP_joinPath (directory : String) :
    (joinPath directory dataName).toList.countP Text.isBlank =
      directory.toList.countP Text.isBlank := by
  by_cases h : directory = ""
  · rw [joinPath_empty h, h]
    decide
  · have hname : dataName.toList.countP Text.isBlank = 0 := by decide
    rw [joinPath_dataName h, List.countP_append, List.countP_append, countP_separator, hname]
    rfl

/-- Blanks around the name of a directory name another directory. -/
theorem joinPath_append_iff (hbefore : IsBlank before) (hafter : IsBlank after) :
    joinPath (before ++ value ++ after) dataName = joinPath value dataName ↔
      before = "" ∧ after = "" := by
  constructor
  · intro heq
    have hcount := countP_joinPath (before ++ value ++ after)
    rw [heq, countP_joinPath, String.toList_append, String.toList_append, List.countP_append,
      List.countP_append, List.countP_eq_length.mpr hbefore, List.countP_eq_length.mpr hafter]
      at hcount
    have hbeforeNil : before.toList.length = 0 := by omega
    have hafterNil : after.toList.length = 0 := by omega
    exact ⟨String.toList_eq_nil_iff.mp (List.length_eq_zero_iff.mp hbeforeNil),
      String.toList_eq_nil_iff.mp (List.length_eq_zero_iff.mp hafterNil)⟩
  · rintro ⟨rfl, rfl⟩
    rw [String.empty_append, String.append_empty]

/-- The path of a blank directory neither starts at the root nor has a point in it. -/
theorem joinPath_of_isBlank (h : IsBlank value) :
    (joinPath value dataName).toList.head? ≠ some '/' ∧
      '.' ∉ (joinPath value dataName).toList := by
  by_cases hvalue : value = ""
  · rw [joinPath_empty hvalue]
    decide
  · have hnil : value.toList ≠ [] := mt String.toList_eq_nil_iff.mp hvalue
    obtain ⟨c, cs, hcs⟩ := List.exists_cons_of_ne_nil hnil
    rw [joinPath_dataName hvalue]
    constructor
    · rw [hcs, List.cons_append, List.head?_cons]
      rintro ⟨⟩
      exact absurd (h '/' (by simp [hcs])) (by decide)
    · rw [List.mem_append, List.mem_append]
      rintro (hmem | hmem | hmem)
      · exact absurd (h _ hmem) (by decide)
      · rw [separator] at hmem
        split at hmem <;> exact absurd hmem (by decide)
      · exact absurd hmem (by decide)

theorem mem_joinPath_of_right {directory name : String} {c : Char} (h : c ∈ name.toList)
    (hname : name.toList.head? ≠ some '/') : c ∈ (joinPath directory name).toList := by
  by_cases hdirectory : directory = ""
  · rwa [joinPath_empty hdirectory]
  · rw [toList_joinPath hdirectory hname]
    exact List.mem_append_right _ (List.mem_append_right _ h)

/-- The path of the directory for data of the user does one of the two. -/
theorem joinPath_userDataDirectory (env : Environment) (home : Option String) :
    (joinPath (env.userDataDirectory home) dataName).toList.head? = some '/' ∨
      '.' ∈ (joinPath (env.userDataDirectory home) dataName).toList := by
  rw [userDataDirectory]
  split
  next directory hdirectory =>
    have hslash := (startsWith_slash_iff directory).mp (Option.filter_eq_some_iff.mp hdirectory).2
    have hnonempty : directory ≠ "" := by
      rintro rfl
      cases hslash
    left
    rw [joinPath_dataName hnonempty, List.head?_append, hslash]
    rfl
  next =>
    right
    generalize hdirectory : (env.homeDirectory? home).elim "." (joinPath · ".local/share") = directory
    have hpoint : '.' ∈ directory.toList := by
      rw [← hdirectory]
      cases env.homeDirectory? home with
      | none => decide
      | some home => exact mem_joinPath_of_right (by decide) (by decide)
    have hnonempty : directory ≠ "" := by
      rintro rfl
      cases hpoint
    rw [joinPath_dataName hnonempty]
    exact List.mem_append_left _ hpoint

/-- A blank root is no directory that the user's data could be in. -/
theorem joinPath_blank_ne (h : IsBlank value) (env : Environment) (home : Option String) :
    joinPath value dataName ≠ joinPath (env.userDataDirectory home) dataName := by
  intro heq
  have hblank := joinPath_of_isBlank h
  rw [heq] at hblank
  exact (joinPath_userDataDirectory env home).elim hblank.1 hblank.2

/-! ## Periods -/

/-- The timers of the settings can be started. -/
structure IsTimed (s : Settings) : Prop where
  refreshEvery_pos : 0 < s.refreshEvery
  healthEvery_pos : 0 < s.healthEvery

theorem seconds_pos {nanos : Nat} (h : env.seconds? name = some nanos) : 0 < nanos := by
  rw [seconds?] at h
  obtain ⟨seconds, hseconds, rfl⟩ := Option.map_eq_some_iff.mp h
  have hpos := of_decide_eq_true (Option.filter_eq_some_iff.mp hseconds).2
  exact Nat.mul_pos hpos (by decide)

theorem isTimed_default (env : Environment) (home : Option String) : (default env home).IsTimed where
  refreshEvery_pos := Nat.mul_pos (by decide) (by decide : 0 < Time.perSecond)
  healthEvery_pos := Nat.mul_pos (by decide) (by decide : 0 < Time.perSecond)

theorem getD_seconds_pos {base : Nat} (hbase : 0 < base) :
    0 < (env.seconds? name).getD base := by
  cases h : env.seconds? name with
  | none => exact hbase
  | some nanos => exact seconds_pos h

theorem isTimed_ofEnvironment (env : Environment) (home : Option String) :
    (ofEnvironment env home).IsTimed :=
  ⟨getD_seconds_pos (isTimed_default env home).refreshEvery_pos,
    getD_seconds_pos (isTimed_default env home).healthEvery_pos⟩

theorem IsTimed.override {s : Settings} (h : s.IsTimed) (change : Override) :
    (s.override change).IsTimed := by
  have hleast : 0 < leastPeriod := by decide
  cases change with
  | refreshEvery nanos =>
      exact ⟨Nat.lt_of_lt_of_le hleast (Nat.le_max_right _ _), h.healthEvery_pos⟩
  | healthEvery nanos =>
      exact ⟨h.refreshEvery_pos, Nat.lt_of_lt_of_le hleast (Nat.le_max_right _ _)⟩
  | _ => exact ⟨h.refreshEvery_pos, h.healthEvery_pos⟩

theorem IsTimed.overrides {s : Settings} (h : s.IsTimed) (changes : List Override) :
    (changes.foldl Settings.override s).IsTimed := by
  induction changes generalizing s with
  | nil => exact h
  | cons change changes ih => exact ih (h.override change)

/-! ## Blank values -/

theorem unset_of_trimmed (hname : name ∈ trimmedVariables) (hvalue : env.get? name = some value)
    (hblank : IsBlank value) :
    ofEnvironment (env.unset name) home = ofEnvironment env home := by
  refine ofEnvironment_of_text hname (agreeBut_unset name env) ?_
  rw [text?_unset_self, text?_of_isBlank hvalue hblank]

theorem set_append_of_trimmed (hname : name ∈ trimmedVariables) (hbefore : IsBlank before)
    (hafter : IsBlank after) (env : Environment) (home : Option String) (value : String) :
    ofEnvironment (env.set name (before ++ value ++ after)) home =
      ofEnvironment (env.set name value) home := by
  refine ofEnvironment_of_text hname ?_ (text?_set_append hbefore hafter)
  exact (agreeBut_set name value env).trans (agreeBut_set name _ env)

/-- A blank root is not as good as none. -/
theorem unset_root_iff (hvalue : env.get? rootVariable = some value) (hblank : IsBlank value) :
    ofEnvironment (env.unset rootVariable) home = ofEnvironment env home ↔
      (env.text? directoryVariable).isSome := by
  have hagree := agreeBut_unset rootVariable env
  have huser := userDataDirectory_of_agree hagree (by decide) home
  rw [ofEnvironment_eq_iff_of_root hagree, defaultDirectory_eq, defaultDirectory_eq, huser, hvalue,
    get?_unset_self]
  exact or_iff_left (joinPath_blank_ne hblank env home).symm

/-- Every blank of a root counts. -/
theorem set_append_root_iff (hbefore : IsBlank before) (hafter : IsBlank after)
    (env : Environment) (home : Option String) (value : String) :
    ofEnvironment (env.set rootVariable (before ++ value ++ after)) home =
        ofEnvironment (env.set rootVariable value) home ↔
      (env.text? directoryVariable).isSome ∨ before = "" ∧ after = "" := by
  have hagree (text : String) := agreeBut_set rootVariable text env
  rw [ofEnvironment_eq_iff_of_root ((hagree value).trans (hagree _)),
    (hagree value).text? (by decide), defaultDirectory_eq, defaultDirectory_eq, get?_set_self,
    get?_set_self, Option.getD_some, Option.getD_some, joinPath_append_iff hbefore hafter]

/-- A blank value counts as unset and blanks around a value do not count, in each variable but the
root; and there this is so exactly if the directory of the data is named, or there are no blanks to
count. The timers of all settings that come of an environment can be started. -/
theorem blanks_count_in_root_only (env : Environment) (home : Option String) :
    (∀ name ∈ readVariables,
      (∀ value, env.get? name = some value → IsBlank value →
        (ofEnvironment (env.unset name) home = ofEnvironment env home ↔
          (name = rootVariable → (env.text? directoryVariable).isSome))) ∧
      ∀ before value after, IsBlank before → IsBlank after →
        (ofEnvironment (env.set name (before ++ value ++ after)) home =
            ofEnvironment (env.set name value) home ↔
          (name = rootVariable →
            (env.text? directoryVariable).isSome ∨ before = "" ∧ after = ""))) ∧
    ∀ changes : List Override,
      IsTimed (changes.foldl override (ofEnvironment env home)) ∧
        IsTimed (changes.foldl override (default env home)) := by
  refine ⟨?_, fun changes => ⟨(isTimed_ofEnvironment env home).overrides changes,
    (isTimed_default env home).overrides changes⟩⟩
  intro name hname
  rcases List.mem_cons.mp hname with rfl | htrimmed
  · constructor
    · intro value hvalue hblank
      rw [unset_root_iff hvalue hblank]
      simp
    · intro before value after hbefore hafter
      rw [set_append_root_iff hbefore hafter]
      simp
  · have hroot : name ≠ rootVariable := by
      rintro rfl
      exact absurd htrimmed (by decide)
    constructor
    · intro value hvalue hblank
      exact iff_of_true (unset_of_trimmed htrimmed hvalue hblank) fun heq => absurd heq hroot
    · intro before value after hbefore hafter
      exact iff_of_true (set_append_of_trimmed htrimmed hbefore hafter env home value)
        fun heq => absurd heq hroot

theorem blank_url_sample :
    let env : Environment := [("HOME", "/home/u"), ("DRIFTWALLET_NODE_URL", " \t")]
    env.get? "DRIFTWALLET_NODE_URL" = some " \t" ∧ IsBlank " \t" ∧
      ofEnvironment (env.unset "DRIFTWALLET_NODE_URL") none = ofEnvironment env none := by
  intro env
  have hvalue : env.get? "DRIFTWALLET_NODE_URL" = some " \t" := by decide
  have hblank : IsBlank " \t" := by decide
  have hlaws := (blanks_count_in_root_only env none).1 "DRIFTWALLET_NODE_URL" (by decide)
  exact ⟨hvalue, hblank, (hlaws.1 " \t" hvalue hblank).mpr (by decide)⟩

/-- A root that is set to nothing moves the data to the directory that the process stands in. -/
theorem empty_root_moves_data :
    let env : Environment := [("HOME", "/home/u"), ("DRIFTWALLET_ROOT", "")]
    IsBlank "" ∧ env.get? "DRIFTWALLET_ROOT" = some "" ∧
      (ofEnvironment env none).dataDirectory = "driftwallet" ∧
      (ofEnvironment (env.unset "DRIFTWALLET_ROOT") none).dataDirectory =
        "/home/u/.local/share/driftwallet" ∧
      ofEnvironment (env.unset "DRIFTWALLET_ROOT") none ≠ ofEnvironment env none := by
  decide +kernel

end Settings
end WalletEngine
