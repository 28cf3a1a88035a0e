import EvalRun.FileSystem

/-! # Proofs.FileSystem.Writing — one file written, all else as it was

    A file is written at the place that its path leads to, and only there. No
    directory stands at that place before or after, so every path leads where
    it led, and reads what it read unless it leads to the file
    (`replaces_put`).
-/

namespace EvalRun

/-- A step and what follows it succeed if both of them do. -/
theorem bind_eq_ok_iff {ε α β : Type} {m : Except ε α} {f : α → Except ε β} {b : β} :
    (m >>= f) = .ok b ↔ ∃ a, m = .ok a ∧ f a = .ok b := by
  cases m with
  | error e =>
    constructor
    · intro h
      cases h
    · rintro ⟨a, h, -⟩
      cases h
  | ok a =>
    constructor
    · exact fun h => ⟨a, rfl, h⟩
    · rintro ⟨_, h, hf⟩
      cases h
      exact hf

namespace FileSystem

/-- One tree is the other one with a text in the file at a place. -/
structure Replaces (fs : FileSystem) (target : Place) (text : String) (fs' : FileSystem) :
    Prop where
  workingDir_eq : fs'.workingDir = fs.workingDir
  /-- Nothing changes at any other place. -/
  node?_other : ∀ place, key place ≠ key target → fs'.node? place = fs.node? place
  /-- Paths lead where they led. -/
  locate_iff : ∀ path place, fs'.locate path = .ok place ↔ fs.locate path = .ok place
  /-- Every path to the place reads the text. -/
  readText_target : ∀ path, fs.locate path = .ok target → fs'.readText path = .ok text
  /-- Every path to another place reads what it read. -/
  readText_other : ∀ path place, fs.locate path = .ok place → key place ≠ key target →
    fs'.readText path = fs.readText path

/-! ### Reading along a path -/

theorem enter_eq_ok_iff {fs : FileSystem} {dir place : Place} {name : String} :
    fs.enter dir name = .ok place ↔
      step dir name = .ok place ∧ fs.node? place = some .directory := by
  unfold enter
  rw [bind_eq_ok_iff]
  constructor
  · rintro ⟨found, hstep, hnode⟩
    split at hnode
    · rename_i hdirectory
      cases hnode
      exact ⟨hstep, hdirectory⟩
    · cases hnode
    · cases hnode
  · rintro ⟨hstep, hdirectory⟩
    refine ⟨place, hstep, ?_⟩
    rw [hdirectory]

theorem locate_eq_ok_iff {fs : FileSystem} {path : String} {place : Place} :
    fs.locate path = .ok place ↔
      ∃ names, lookupNames path = .ok names ∧
        ∃ dir, names.dropLast.foldlM fs.enter (fs.start names) = .ok dir ∧
          step dir (names.getLastD "") = .ok place := by
  unfold locate
  simp only [bind_eq_ok_iff]

/-- A path that leads to the same place in two trees, where the same stands,
    reads the same in both. -/
theorem readText_congr {fs fs' : FileSystem} {path : String} {place : Place}
    (h : fs.locate path = .ok place) (h' : fs'.locate path = .ok place)
    (hnode : fs'.node? place = fs.node? place) : fs'.readText path = fs.readText path := by
  have hfind : fs'.find path = fs.find path := by
    unfold find
    rw [h, h']
    simp only [bind, Except.bind, hnode]
  unfold readText
  rw [hfind]

/-- A path that leads to a file with a text reads the text. -/
theorem readText_of_file {fs : FileSystem} {path text : String} {place : Place}
    (h : fs.locate path = .ok place) (hnode : fs.node? place = some (.file text.toUTF8)) :
    fs.readText path = .ok text := by
  have hfind : fs.find path = .ok (.file text.toUTF8) := by
    unfold find
    rw [h]
    simp only [bind, Except.bind, hnode]
  have htext : String.fromUTF8? text.toUTF8 = some text := by
    rw [String.fromUTF8?, String.toUTF8_eq_toByteArray, dif_pos text.isValidUTF8]
    rfl
  unfold readText
  rw [hfind]
  simp only [bind, Except.bind, htext]

/-- A file can be written at the place that its path leads to, where no
    directory stands. -/
theorem locate_of_writablePlace {fs : FileSystem} {path : String} {target : Place}
    (h : fs.writablePlace path = .ok target) :
    fs.locate path = .ok target ∧ fs.node? target ≠ some .directory := by
  unfold writablePlace at h
  obtain ⟨names, -, h⟩ := bind_eq_ok_iff.1 h
  split at h
  · obtain ⟨dir, -, h⟩ := bind_eq_ok_iff.1 h
    cases h
  · obtain ⟨place, hlocate, h⟩ := bind_eq_ok_iff.1 h
    split at h
    · cases h
    · rename_i hnode
      cases h
      exact ⟨hlocate, hnode⟩

/-! ### Paths -/

/-- Trees with the same directories lead every path to the same place. -/
theorem locate_congr {fs fs' : FileSystem} (hworking : fs'.workingDir = fs.workingDir)
    (hdirectory : ∀ place, fs'.node? place = some .directory ↔ fs.node? place = some .directory)
    (path : String) (place : Place) :
    fs'.locate path = .ok place ↔ fs.locate path = .ok place := by
  have henter (names : List String) (dir last : Place) :
      names.foldlM fs'.enter dir = .ok last ↔ names.foldlM fs.enter dir = .ok last := by
    induction names generalizing dir with
    | nil => rfl
    | cons name rest ih =>
      simp only [List.foldlM_cons, bind_eq_ok_iff, enter_eq_ok_iff, hdirectory, ih]
  have hstart (names : List String) : fs'.start names = fs.start names := by
    unfold start
    rw [hworking]
  simp only [locate_eq_ok_iff, hstart, henter]

/-! ### Writing -/

variable {fs : FileSystem} {target : Place}

theorem node?_put (fs : FileSystem) (target place : Place) (node : FileNode) :
    (fs.put target node).node? place =
      if place.isEmpty then some .directory
      else if key place = key target then some node
      else fs.node? place := by
  unfold node? put
  simp only [OrderedMap.get?_alter]
  split
  · rfl
  · rfl

/-- Writing a file makes no directory and removes none. -/
theorem node?_put_eq_directory_iff (htarget : fs.node? target ≠ some .directory)
    (contents : ByteArray) (place : Place) :
    (fs.put target (.file contents)).node? place = some .directory ↔
      fs.node? place = some .directory := by
  rw [node?_put]
  by_cases hempty : place.isEmpty = true
  · simp [node?, hempty]
  · rw [if_neg hempty]
    by_cases hkey : key place = key target
    · -- at the target there is a file now, and was no directory before
      have htarget_ne : ¬ target.isEmpty = true := by
        intro htarget_empty
        simp [node?, htarget_empty] at htarget
      have hsame : fs.node? place = fs.node? target := by
        simp [node?, hempty, htarget_ne, hkey]
      rw [if_pos hkey, hsame]
      simp [htarget]
    · rw [if_neg hkey]

/-- Writing a text where a path allows it replaces the file there. -/
theorem replaces_put {path : String} (h : fs.writablePlace path = .ok target) (text : String) :
    fs.Replaces target text (fs.put target (.file text.toUTF8)) := by
  obtain ⟨-, htarget⟩ := locate_of_writablePlace h
  have htarget_ne : ¬ target.isEmpty = true := by
    intro htarget_empty
    simp [node?, htarget_empty] at htarget
  have hother : ∀ place, key place ≠ key target →
      (fs.put target (.file text.toUTF8)).node? place = fs.node? place := by
    intro place hkey
    rw [node?_put, if_neg hkey]
    split
    · simp [node?, *]
    · rfl
  have hlocate : ∀ path place,
      (fs.put target (.file text.toUTF8)).locate path = .ok place ↔ fs.locate path = .ok place :=
    locate_congr rfl (node?_put_eq_directory_iff htarget text.toUTF8)
  exact {
    workingDir_eq := rfl
    node?_other := hother
    locate_iff := hlocate
    readText_target := by
      intro path hpath
      apply readText_of_file ((hlocate path target).2 hpath)
      rw [node?_put, if_neg htarget_ne, if_pos rfl]
    readText_other := by
      intro path place hpath hkey
      exact readText_congr hpath ((hlocate path place).2 hpath) (hother place hkey) }

end FileSystem

end EvalRun
