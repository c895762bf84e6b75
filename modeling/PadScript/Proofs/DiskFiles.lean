import Mathlib.Tactic
import PadScript.Storage.Folder

/-!
# Files are read as they were written

The path of a file that was written leads to its text afterwards, since no file stands in the way of
a path that leads through folders.
-/
namespace PadScript

namespace Disk

variable {d after : Disk} {place : Place}

theorem node?_put (d : Disk) (hplace : place ≠ []) (other : Place) (node : Node) :
    (d.put place node).node? other = if other = place then some node else d.node? other := by
  unfold node? put
  by_cases hsame : other = place
  · simp [hsame, hplace]
  · have hne : (other == place) = false := by simpa using hsame
    simp only [List.lookup_cons, hne, if_neg hsame]
    congr 1
    induction d.nodes with
    | nil => rfl
    | cons entry rest ih => grind [List.filter]

theorem folderAt_eq_ok : d.folderAt place = .ok () ↔ d.node? place = some .folder := by
  unfold folderAt
  split <;> simp_all

theorem walk_cons_eq_ok {start goal : Place} {piece : String} {rest : List String} :
    d.walk start (piece :: rest) = .ok goal ↔ d.node? start = some .folder ∧
      ∃ next, d.walk next rest = .ok goal ∧
        if Path.isStay piece then next = start
        else if piece = ".." then next = start.dropLast
        else piece.utf8ByteSize ≤ longestName ∧ next = start ++ [piece] := by
  rw [walk]
  cases hfolder : d.folderAt start with
  | error err =>
    have hnot : d.node? start ≠ some .folder := fun h => by
      rw [← folderAt_eq_ok, hfolder] at h
      cases h
    simp [hnot, bind, Except.bind]
  | ok _ =>
    simp only [folderAt_eq_ok.mp hfolder, bind, Except.bind, true_and]
    split
    · simp
    split
    · simp
    split
    · simp
      omega
    · simp
      omega

theorem walk_append (d : Disk) (start : Place) (first rest : List String) :
    d.walk start (first ++ rest) = (d.walk start first).bind (d.walk · rest) := by
  induction first generalizing start with
  | nil => rfl
  | cons p others ih =>
    rw [List.cons_append, walk, walk]
    cases d.folderAt start with
    | error err => rfl
    | ok _ =>
      show (if _ then _ else _) = Except.bind (if _ then _ else _) _
      split
      · exact ih start
      · split
        · exact ih _
        · split
          · rfl
          · exact ih _

/-- What is put in a place that is no folder is in the way of no walk. -/
theorem walk_put {start goal : Place} {pieces : List String} (hplace : place ≠ [])
    (hfree : d.node? place ≠ some .folder) (node : Node) (h : d.walk start pieces = .ok goal) :
    (d.put place node).walk start pieces = .ok goal := by
  induction pieces generalizing start with
  | nil => exact h
  | cons piece rest ih =>
    obtain ⟨hfolder, next, hnext, hpiece⟩ := walk_cons_eq_ok.mp h
    have hne : start ≠ place := by
      rintro rfl
      exact hfree hfolder
    refine walk_cons_eq_ok.mpr ⟨?_, next, ih hnext, hpiece⟩
    rw [node?_put d hplace, if_neg hne, hfolder]

theorem dropSlashes_eq_self {pieces : List String} (h : pieces.getLast? ≠ some "") :
    dropSlashes pieces = pieces := by
  unfold dropSlashes
  cases hreverse : pieces.reverse with
  | nil => simpa using hreverse
  | cons last before =>
    obtain rfl : pieces = before.reverse ++ [last] := by
      rw [← List.reverse_reverse pieces, hreverse, List.reverse_cons]
    have hlast : last ≠ "" := fun hempty => h (by simp [hempty])
    simp [hlast]

theorem target_eq_ok {start : Place} {pieces : List String} {moved : FileError}
    (h : d.target start pieces moved = .ok place) :
    ∃ before name folder, pieces = before ++ [name] ∧ d.walk start before = .ok folder ∧
      d.node? folder = some .folder ∧ Path.isName name ∧ place = folder ++ [name] := by
  unfold target at h
  cases hlast : pieces.getLast? with
  | none =>
    rw [hlast] at h
    cases h
  | some name =>
  obtain ⟨before, rfl⟩ := List.getLast?_eq_some_iff.mp hlast
  rw [hlast, List.dropLast_concat] at h
  cases hwalk : d.walk start before with
  | error err =>
    simp only [hwalk] at h
    cases h
  | ok folder =>
  cases hfolder : d.folderAt folder with
  | error err =>
    simp only [hwalk, hfolder, bind, Except.bind] at h
    cases h
  | ok _ =>
  simp only [hwalk, hfolder, bind, Except.bind] at h
  split at h
  next hname =>
    exact ⟨before, name, folder, rfl, hwalk, folderAt_eq_ok.mp hfolder, hname,
      (Except.ok.inj h).symm⟩
  next => cases h

theorem write_eq_ok {path text : String} (h : d.write path text = .ok after) :
    ∃ before name folder, checkPath path = .ok () ∧ Path.pieces path = before ++ [name] ∧
      d.walk (d.start path) before = .ok folder ∧ d.node? folder = some .folder ∧
      Path.isName name ∧ name.utf8ByteSize ≤ longestName ∧
      d.node? (folder ++ [name]) ≠ some .folder ∧
      after = d.put (folder ++ [name]) (.file (some text)) := by
  unfold write at h
  cases hpath : checkPath path with
  | error err =>
    rw [hpath] at h
    cases h
  | ok _ =>
  simp only [hpath, bind, Except.bind] at h
  cases htarget : d.target (d.start path) (dropSlashes (Path.pieces path)) .isFolder with
  | error err =>
    rw [htarget] at h
    cases h
  | ok place =>
  simp only [htarget] at h
  split at h
  · cases h
  next hslash =>
  obtain ⟨hsize, hfree, hafter⟩ : checkName place = .ok () ∧ d.node? place ≠ some .folder ∧
      after = d.put place (.file (some text)) := by
    cases hcheck : checkName place with
    | error err =>
      rw [hcheck] at h
      cases h
    | ok _ =>
      simp only [hcheck] at h
      split at h
      · cases h
      next hfree => exact ⟨rfl, hfree, (Except.ok.inj h).symm⟩
  rw [dropSlashes_eq_self hslash] at htarget
  obtain ⟨before, name, folder, hpieces, hwalk, hfolder, hname, rfl⟩ := target_eq_ok htarget
  refine ⟨before, name, folder, rfl, hpieces, hwalk, hfolder, hname, ?_, hfree, hafter⟩
  by_contra hlong
  simp [checkName, not_le.mp hlong] at hsize

theorem write_outcome (d : Disk) (path text other : String) :
    (d.write path text).map (fun _ => ()) = (d.write path other).map fun _ => () := by
  unfold write
  cases checkPath path with
  | error err => rfl
  | ok _ =>
  simp only [bind, Except.bind]
  cases d.target (d.start path) (dropSlashes (Path.pieces path)) .isFolder with
  | error err => rfl
  | ok place =>
  dsimp only
  split
  · rfl
  · cases checkName place with
    | error err => rfl
    | ok _ =>
      dsimp only
      split <;> rfl

theorem read_write {path text : String} (h : d.write path text = .ok after) :
    after.read path = .ok text := by
  obtain ⟨before, name, folder, hpath, hpieces, hwalk, hfolder, hname, hsize, hfree, rfl⟩ :=
    write_eq_ok h
  have hplace : folder ++ [name] ≠ [] := by simp
  have hstart : (d.put (folder ++ [name]) (.file (some text))).start path = d.start path := rfl
  have hbefore := walk_put hplace hfree (.file (some text)) hwalk
  have hne : folder ≠ folder ++ [name] := by simp
  have hname' : ¬ Path.isStay name ∧ name ≠ ".." := by
    simp only [Path.isName, Bool.and_eq_true, decide_eq_true_eq] at hname
    simp [Path.isStay, hname]
  have hlast : (d.put (folder ++ [name]) (.file (some text))).walk folder [name] =
      .ok (folder ++ [name]) := by
    refine walk_cons_eq_ok.mpr ⟨?_, folder ++ [name], rfl, ?_⟩
    · rw [node?_put d hplace, if_neg hne, hfolder]
    · rw [if_neg hname'.1, if_neg hname'.2]
      exact ⟨hsize, rfl⟩
  have hnode := node?_put d hplace (folder ++ [name]) (.file (some text))
  rw [if_pos rfl] at hnode
  have hfind : (d.put (folder ++ [name]) (.file (some text))).find path =
      .ok (.file (some text)) := by
    rw [find, hpath, hstart, hpieces]
    simp [bind, Except.bind, walk_append, hbefore, hlast, hnode]
  rw [read, hfind]
  rfl

end Disk

theorem FolderStorage.read_write {s after : FolderStorage} {name contents : String}
    (h : s.write name contents = (.ok (), after)) :
    after.disk.read (Path.join s.root name) = .ok contents := by
  unfold write at h
  dsimp only at h
  split at h
  · cases h
  next made _ =>
    split at h
    · cases h
    next written hwrite =>
      obtain rfl := (Prod.mk.inj h).2
      exact Disk.read_write hwrite

theorem FolderStorage.write_outcome (s : FolderStorage) (name contents other : String) :
    (s.write name contents).1 = (s.write name other).1 := by
  unfold write
  cases s.disk.ensureFolder s.root with
  | mk outcome made =>
  cases outcome with
  | error err => rfl
  | ok _ =>
  have hsame := made.write_outcome (Path.join s.root name) contents other
  dsimp only
  split <;> split <;> simp_all [Except.map]

end PadScript
