import WalletEngine.Proofs.Store.Paths

/-! # Files side by side

The names in one place of a disk share the way that leads to them, and a change of one of them leaves
that way and the other names as they were.
-/

namespace WalletEngine.Disk

variable {disk : Disk} {place : Path} {name other : String}

/-- Whether every part of a place is a directory. -/
def way (disk : Disk) (place : Path) : Except FileFault Unit := disk.checkWay [] (place ++ [""])

/-- A file can be written under a name in a place. -/
structure Takes (disk : Disk) (place : Path) (name : String) : Prop where
  way : disk.way place = .ok ()
  notDirectory : disk.get? (place ++ [name]) ≠ some .directory

/-- What a file under a name has, if there is one. -/
def content? (disk : Disk) (place : Path) (name : String) : Option Bytes :=
  match disk.get? (place ++ [name]) with
  | some (.file content) => some content
  | _ => none

/-! ## Ways -/

theorem checkWay_cons (above : Path) (part first : String) (tail : Path) :
    disk.checkWay above (part :: first :: tail) = match disk.get? (above ++ [part]) with
      | some .directory => disk.checkWay (above ++ [part]) (first :: tail)
      | some (.file _) => .error .notDirectory
      | none => .error .notFound := rfl

/-- Of two disks that agree on what is not below a place, both have a way to it or none has. -/
theorem checkWay_congr {disk' : Disk} {above : Path} (name other : String)
    (h : ∀ path : Path, path.length ≤ (above ++ place).length → disk'.get? path = disk.get? path) :
    disk'.checkWay above (place ++ [name]) = disk.checkWay above (place ++ [other]) := by
  induction place generalizing above with
  | nil => rfl
  | cons part rest ih =>
      have hlength : (above ++ [part]).length ≤ (above ++ part :: rest).length := by
        simp only [List.length_append, List.length_cons, List.length_nil]
        omega
      have hrest : (above ++ [part] ++ rest).length = (above ++ part :: rest).length := by
        rw [List.append_assoc, List.singleton_append]
      obtain ⟨first, tail, htail⟩ : ∃ first tail, rest ++ [name] = first :: tail :=
        List.exists_cons_of_ne_nil (by simp)
      obtain ⟨first', tail', htail'⟩ : ∃ first tail, rest ++ [other] = first :: tail :=
        List.exists_cons_of_ne_nil (by simp)
      have hnext := ih fun path hpath => h path (hrest ▸ hpath)
      rw [htail, htail'] at hnext
      rw [List.cons_append, List.cons_append, htail, htail', checkWay_cons, checkWay_cons,
        h _ hlength, hnext]

theorem checkWay_name (name : String) : disk.checkWay [] (place ++ [name]) = disk.way place :=
  checkWay_congr name "" fun _ _ => rfl

theorem length_ne_of_le {path : Path} (name : String) (h : path.length ≤ place.length) :
    path ≠ place ++ [name] := by
  rintro rfl
  rw [List.length_append, List.length_singleton] at h
  omega

@[simp] theorem way_put (node : Node) :
    (disk.put (place ++ [name]) node).way place = disk.way place :=
  checkWay_congr "" "" fun _ hpath => get?_put_of_ne _ _ (length_ne_of_le name hpath)

@[simp] theorem way_erase : (disk.erase (place ++ [name])).way place = disk.way place :=
  checkWay_congr "" "" fun _ hpath => get?_erase_of_ne _ (length_ne_of_le name hpath)

theorem checkWay_append {above : Path} (hway : disk.checkWay above place = .ok ())
    (hget : disk.get? (above ++ place) = some .directory) :
    disk.checkWay above (place ++ [name]) = .ok () := by
  induction place generalizing above with
  | nil => rfl
  | cons part rest ih =>
      cases rest with
      | nil =>
          rw [List.singleton_append, checkWay_cons, hget]
          rfl
      | cons first tail =>
          rw [checkWay_cons] at hway
          rw [List.cons_append, List.cons_append, checkWay_cons]
          split at hway
          next => exact ih hway (by rwa [List.append_assoc])
          next => cases hway
          next => cases hway

/-- There is a way to what lies in a directory. -/
theorem way_of_find (h : disk.find place = .ok .directory) : disk.way place = .ok () := by
  rw [find] at h
  cases hway : disk.checkWay [] place with
  | error fault =>
      rw [hway] at h
      cases h
  | ok =>
      rw [hway] at h
      cases hget : disk.get? place with
      | none =>
          rw [hget] at h
          cases h
      | some node =>
          rw [hget] at h
          cases h
          exact checkWay_append hway hget

/-! ## Names -/

@[simp] theorem get?_put_name (node : Node) :
    (disk.put (place ++ [name]) node).get? (place ++ [name]) = some node :=
  get?_put_self _ _ (by simp)

theorem get?_put_other (node : Node) (h : other ≠ name) :
    (disk.put (place ++ [name]) node).get? (place ++ [other]) = disk.get? (place ++ [other]) :=
  get?_put_of_ne _ _ (by simpa using h)

theorem get?_erase_other (h : other ≠ name) :
    (disk.erase (place ++ [name])).get? (place ++ [other]) = disk.get? (place ++ [other]) :=
  get?_erase_of_ne _ (by simpa using h)

theorem get?_erase_name :
    (disk.erase (place ++ [name])).get? (place ++ [name]) = none := by
  cases hpath : place ++ [name] with
  | nil => simp at hpath
  | cons part rest =>
      refine List.lookup_eq_none_iff.mpr fun entry hentry => ?_
      have hne : entry.1 ≠ part :: rest := bne_iff_ne.mp (List.mem_filter.mp hentry).2
      exact bne_iff_ne.mpr hne.symm

theorem find_name : disk.find (place ++ [name]) = match disk.way place with
    | .ok () => match disk.get? (place ++ [name]) with
      | some node => .ok node
      | none => .error .notFound
    | .error fault => .error fault := by
  rw [find, checkWay_name]
  cases disk.way place <;> rfl

theorem find_put_name (node : Node) (hway : disk.way place = .ok ()) :
    (disk.put (place ++ [name]) node).find (place ++ [name]) = .ok node := by
  rw [find_name, way_put, hway, get?_put_name]

theorem find_put_other (node : Node) (h : other ≠ name) :
    (disk.put (place ++ [name]) node).find (place ++ [other]) = disk.find (place ++ [other]) := by
  rw [find_name, find_name, way_put, get?_put_other node h]

/-! ## Writing a file and giving it another name -/

/-- A file that can be written is written, and it has what the change makes of what it had. -/
theorem writeBytes_of_takes (h : disk.Takes place name) (change : Option Bytes → Bytes) :
    disk.writeBytes (place ++ [name]) change =
      .ok (disk.put (place ++ [name]) (.file (change (disk.content? place name)))) := by
  rw [writeBytes, checkWay_name, h.way, content?]
  have hdirectory := h.notDirectory
  cases hget : disk.get? (place ++ [name]) with
  | none => rfl
  | some node =>
      cases node with
      | directory => exact absurd hget hdirectory
      | file content => rfl

theorem writeBytes_of_not_takes (h : ¬disk.Takes place name) (change : Option Bytes → Bytes) :
    ∃ fault, disk.writeBytes (place ++ [name]) change = .error fault := by
  rw [writeBytes, checkWay_name]
  cases hway : disk.way place with
  | error fault => exact ⟨fault, rfl⟩
  | ok =>
      cases hget : disk.get? (place ++ [name]) with
      | none => exact absurd ⟨hway, by simp [hget]⟩ h
      | some node =>
          cases node with
          | directory => exact ⟨.isDirectory, rfl⟩
          | file content => exact absurd ⟨hway, by simp [hget]⟩ h

/-- A file that was just written has its other name afterwards, if a file can be written there. -/
theorem move_put_of_takes (bytes : Bytes) (hway : disk.way place = .ok ())
    (h : (disk.put (place ++ [name]) (.file bytes)).Takes place other) :
    (disk.put (place ++ [name]) (.file bytes)).move (place ++ [name]) (place ++ [other]) =
      .ok (((disk.put (place ++ [name]) (.file bytes)).erase (place ++ [name])).put
        (place ++ [other]) (.file bytes)) := by
  have hdirectory := h.notDirectory
  rw [move, readBytes, find_put_name _ hway, checkWay_name, h.way]
  cases hget : (disk.put (place ++ [name]) (.file bytes)).get? (place ++ [other]) with
  | none => rfl
  | some node =>
      cases node with
      | directory => exact absurd hget hdirectory
      | file content => rfl

theorem move_of_not_takes (source : Path) (h : ¬disk.Takes place other) :
    ∃ fault, disk.move source (place ++ [other]) = .error fault := by
  rw [move]
  cases disk.readBytes source with
  | error fault => exact ⟨fault, rfl⟩
  | ok bytes =>
      rw [checkWay_name]
      cases hway : disk.way place with
      | error fault => exact ⟨fault, rfl⟩
      | ok =>
          have hget : disk.get? (place ++ [other]) = some .directory :=
            Classical.byContradiction fun hdirectory => h ⟨hway, hdirectory⟩
          refine ⟨.isDirectory, ?_⟩
          rw [hget]
          rfl

/-! ## What stays possible -/

theorem takes_put_name (bytes : Bytes) (hway : disk.way place = .ok ()) :
    (disk.put (place ++ [name]) (.file bytes)).Takes place name :=
  ⟨by rw [way_put, hway], by simp⟩

theorem takes_put_other (node : Node) (h : other ≠ name) :
    (disk.put (place ++ [name]) node).Takes place other ↔ disk.Takes place other :=
  ⟨fun ⟨hway, hget⟩ => ⟨way_put node ▸ hway, get?_put_other node h ▸ hget⟩,
    fun ⟨hway, hget⟩ => ⟨(way_put node).trans hway, (get?_put_other node h).symm ▸ hget⟩⟩

theorem takes_erase_name (hway : disk.way place = .ok ()) :
    (disk.erase (place ++ [name])).Takes place name :=
  ⟨way_erase.trans hway, by simp [get?_erase_name]⟩

theorem takes_erase_other (h : other ≠ name) :
    (disk.erase (place ++ [name])).Takes place other ↔ disk.Takes place other :=
  ⟨fun ⟨hway, hget⟩ => ⟨way_erase ▸ hway, get?_erase_other h ▸ hget⟩,
    fun ⟨hway, hget⟩ => ⟨way_erase.trans hway, (get?_erase_other h).symm ▸ hget⟩⟩

end WalletEngine.Disk
