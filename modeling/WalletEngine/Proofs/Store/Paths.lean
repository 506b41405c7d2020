import WalletEngine.Store.Basic
import WalletEngine.Store.Disk

/-! # Where a store keeps its files

Whatever its directory is called and wherever the process stands, a store has its image, its draft
and its lock side by side in one place of the disk.
-/

namespace WalletEngine

/-! ## Joining paths -/

theorem startsWith_slash_iff (s : String) : s.startsWith "/" = true ↔ s.toList.head? = some '/' := by
  rw [String.startsWith_string_iff]
  cases hs : s.toList with
  | nil => simp
  | cons c cs => simp [eq_comm]

theorem endsWith_slash_iff (s : String) : s.endsWith "/" = true ↔ s.toList.getLast? = some '/' := by
  have hslice : s.endsWith "/" = s.toSlice.endsWith "/" := rfl
  rw [hslice, String.Slice.endsWith_string_iff, String.copy_toSlice]
  constructor
  · rintro ⟨before, hbefore⟩
    rw [← hbefore]
    simp
  · intro hlast
    obtain ⟨before, hbefore⟩ := List.getLast?_eq_some_iff.mp hlast
    exact ⟨before, by rw [hbefore]; rfl⟩

/-- Slashes between a directory and a name, where they are missing. -/
def separator (directory : String) : List Char :=
  if directory.toList.getLast? = some '/' then [] else ['/']

theorem joinPath_empty {directory name : String} (h : directory = "") :
    joinPath directory name = name := by
  subst h
  simp [joinPath]

theorem joinPath_of_slash {directory name : String} (h : name.toList.head? = some '/') :
    joinPath directory name = name := by
  rw [joinPath, if_pos (by simp [(startsWith_slash_iff name).mpr h])]

theorem toList_joinPath {directory name : String} (hdirectory : directory ≠ "")
    (hname : name.toList.head? ≠ some '/') :
    (joinPath directory name).toList = directory.toList ++ (separator directory ++ name.toList) := by
  have hguard : ¬(name.startsWith "/" || directory.isEmpty) = true := by
    rw [Bool.or_eq_true, startsWith_slash_iff, String.isEmpty_iff]
    exact not_or.mpr ⟨hname, hdirectory⟩
  rw [joinPath, if_neg hguard, separator]
  by_cases hlast : directory.toList.getLast? = some '/'
  · rw [if_pos ((endsWith_slash_iff _).mpr hlast), if_pos hlast, String.toList_append,
      List.nil_append]
  · rw [if_neg (mt (endsWith_slash_iff _).mp hlast), if_neg hlast, String.toList_append,
      String.toList_append, List.append_assoc]
    rfl

/-! ## The parts of a path -/

/-- One part more of a path. -/
def descend (way : List String) (part : String) : List String :=
  if part = "" || part = "." then way
  else if part = ".." then way.drop 1
  else part :: way

/-- The way from the root along a path, the last part first. -/
def climb (path : List Char) : List String :=
  ((path.splitOn '/').map String.ofList).foldl descend []

theorem parts_eq (path : String) : Disk.parts path = (climb path.toList).reverse := rfl

theorem climb_append_slash (path rest : List Char) :
    climb (path ++ '/' :: rest) =
      ((rest.splitOn '/').map String.ofList).foldl descend (climb path) := by
  rw [climb, List.splitOn_append_cons_self, List.map_append, List.foldl_append]
  rfl

/-- A slash at the end of a path changes nothing. -/
theorem climb_slash (path : List Char) : climb (path ++ ['/']) = climb path := by
  rw [climb_append_slash, List.splitOn_nil]
  rfl

/-- A name that is a part of its own. -/
structure IsPlain (name : String) : Prop where
  noSlash : '/' ∉ name.toList
  nonempty : name ≠ ""
  notDot : name ≠ "."
  notDots : name ≠ ".."

theorem IsPlain.head? {name : String} (h : IsPlain name) : name.toList.head? ≠ some '/' :=
  fun hhead => h.noSlash (List.mem_of_mem_head? hhead)

theorem IsPlain.descend {name : String} (h : IsPlain name) (way : List String) :
    descend way name = name :: way := by
  rw [WalletEngine.descend, if_neg (by simp [h.nonempty, h.notDot]), if_neg h.notDots]

theorem climb_append_name (path : List Char) {name : String} (h : IsPlain name) :
    climb (path ++ '/' :: name.toList) = name :: climb path := by
  rw [climb_append_slash, List.splitOn_eq_singleton h.noSlash]
  simp only [List.map_cons, List.map_nil, List.foldl_cons, List.foldl_nil, String.ofList_toList]
  exact h.descend _

/-- The parts of a name in a directory are those of the directory and the name. -/
theorem parts_joinPath (directory : String) {name : String} (h : IsPlain name) :
    Disk.parts (joinPath directory name) = Disk.parts directory ++ [name] := by
  by_cases hdirectory : directory = ""
  · rw [joinPath_empty hdirectory, hdirectory, parts_eq, climb, List.splitOn_eq_singleton h.noSlash]
    simp only [List.map_cons, List.map_nil, List.foldl_cons, List.foldl_nil, String.ofList_toList,
      h.descend]
    rfl
  · rw [parts_eq, toList_joinPath hdirectory h.head?, separator]
    split
    next hlast =>
      obtain ⟨before, hbefore⟩ := List.getLast?_eq_some_iff.mp hlast
      rw [List.nil_append, hbefore, List.append_assoc, List.singleton_append,
        climb_append_name _ h, parts_eq, hbefore, climb_slash, List.reverse_cons]
    next =>
      rw [List.singleton_append, climb_append_name _ h, parts_eq, List.reverse_cons]

/-- The place of a directory for a process that stands in `start`. -/
def placeOf (start directory : String) : Disk.Path := Disk.parts (joinPath start directory)

theorem placeOf_empty (start : String) : placeOf start "" = Disk.parts start := by
  by_cases hstart : start = ""
  · rw [placeOf, joinPath_empty hstart, hstart]
  · rw [placeOf, parts_eq, toList_joinPath hstart (by decide), separator, parts_eq]
    split
    next => simp
    next => exact congrArg List.reverse (climb_slash _)

/-- A name in a directory is where it is, wherever the directory is looked at from. -/
theorem joinPath_joinPath {start directory name : String} (hdirectory : directory ≠ "")
    (hslash : directory.toList.head? ≠ some '/') (hname : name.toList.head? ≠ some '/') :
    joinPath start (joinPath directory name) = joinPath (joinPath start directory) name := by
  have hne : directory.toList ≠ [] := by simpa using hdirectory
  by_cases hstart : start = ""
  · rw [joinPath_empty hstart, joinPath_empty hstart]
  have hinner := toList_joinPath hdirectory hname
  have houter := toList_joinPath hstart hslash
  have hhead : (joinPath directory name).toList.head? ≠ some '/' := by
    rwa [hinner, List.head?_append, Option.or_of_isSome (by simpa using hdirectory)]
  have hplace : joinPath start directory ≠ "" := by
    intro hempty
    rw [hempty] at houter
    exact hne (List.append_eq_nil_iff.mp (List.append_eq_nil_iff.mp houter.symm).2).2
  have hseparator : separator (joinPath start directory) = separator directory := by
    rw [separator, houter, ← List.append_assoc, List.getLast?_append,
      Option.or_of_isSome (by simpa using hdirectory), ← separator]
  apply String.toList_inj.mp
  rw [toList_joinPath hstart hhead, hinner, toList_joinPath hplace hname, hseparator, houter]
  simp only [List.append_assoc]

/-- A name in a directory is a name in the place of the directory. -/
theorem parts_joinPath_joinPath (start directory : String) {name : String} (h : IsPlain name) :
    Disk.parts (joinPath start (joinPath directory name)) = placeOf start directory ++ [name] := by
  by_cases hdirectory : directory = ""
  · rw [joinPath_empty hdirectory, hdirectory, placeOf_empty, parts_joinPath start h]
  by_cases hslash : directory.toList.head? = some '/'
  · have hhead : (joinPath directory name).toList.head? = some '/' := by
      rw [toList_joinPath hdirectory h.head?, List.head?_append, hslash]
      rfl
    rw [joinPath_of_slash hhead, placeOf, joinPath_of_slash hslash, parts_joinPath directory h]
  · rw [joinPath_joinPath hdirectory hslash h.head?, parts_joinPath _ h, placeOf]

/-! ## The files of a store -/

namespace Store

theorem isPlain_image : IsPlain "wallet.json" := ⟨by decide, by decide, by decide, by decide⟩

theorem isPlain_draft : IsPlain "wallet.json.tmp" := ⟨by decide, by decide, by decide, by decide⟩

theorem isPlain_lock : IsPlain "wallet.lock" := ⟨by decide, by decide, by decide, by decide⟩

/-- The draft of a store has a name of its own. -/
theorem draftPath_eq (s : Store) : s.draftPath = joinPath s.directory "wallet.json.tmp" := by
  have hsame : "wallet.json" ++ ".tmp" = "wallet.json.tmp" := by decide
  by_cases hdirectory : s.directory = ""
  · rw [draftPath, path, joinPath_empty hdirectory, joinPath_empty hdirectory, hsame]
  · apply String.toList_inj.mp
    rw [draftPath, path, String.toList_append, toList_joinPath hdirectory isPlain_image.head?,
      toList_joinPath hdirectory isPlain_draft.head?, ← hsame, String.toList_append]
    simp only [List.append_assoc]

end Store
end WalletEngine
