import PadScript.Proofs.DiskFiles
import PadScript.Proofs.RowText
import PadScript.Script.Load

/-!
# Script names stay inside the folder

A folder checks the parts of a name, but opens the text of the name with the extension after it,
whose last piece is another one. `Path.descend?` follows the pieces of that text one by one. It
never climbs above the folder, so that loads see nothing of a disk but what lies in the folder.
-/
namespace PadScript

theorem Text.exists_pieces_append {sep : Char} {ending : List Char} (h : sep ∉ ending)
    (cs : List Char) : ∃ before last, pieces sep cs = before ++ [last] ∧
      pieces sep (cs ++ ending) = before ++ [last ++ ending] := by
  induction cs with
  | nil => exact ⟨[], [], rfl, pieces_of_not_mem h⟩
  | cons c rest ih =>
    obtain ⟨before, last, hrest, hlonger⟩ := ih
    rw [List.cons_append, pieces, pieces, hrest, hlonger]
    split
    · exact ⟨[] :: before, last, rfl, rfl⟩
    · cases before with
      | nil => exact ⟨[], c :: last, rfl, rfl⟩
      | cons first more => exact ⟨(c :: first) :: more, last, rfl, rfl⟩

namespace Path

/-- Where pieces lead from a place below some folder, told by the names below the folder; nowhere
if they climb above it on the way. -/
def descend? : (below : List String) → List String → Option (List String)
  | below, [] => some below
  | below, p :: rest =>
    if isStay p then descend? below rest
    else if p = ".." then
      if below = [] then none else descend? below.dropLast rest
    else descend? (below ++ [p]) rest

theorem exists_pieces_append {ending : String} (h : '/' ∉ ending.toList) (path : String) :
    ∃ before last, pieces path = before ++ [last] ∧
      pieces (path ++ ending) = before ++ [last ++ ending] := by
  obtain ⟨before, last, hpath, hlonger⟩ := Text.exists_pieces_append h path.toList
  refine ⟨before.map String.ofList, String.ofList last, ?_, ?_⟩
  · rw [pieces, hpath]
    simp
  · rw [pieces, String.toList_append, hlonger]
    simp

theorem pieces_append_slash (path rest : String) :
    pieces (path ++ "/" ++ rest) = pieces path ++ pieces rest := by
  have hslash : (path ++ "/" ++ rest).toList = path.toList ++ '/' :: rest.toList := by simp
  rw [pieces, hslash, Text.pieces_append_cons, List.map_append]
  rfl

theorem all_isName_filterMap {ps : List String} :
    (ps.filterMap Component.ofPiece?).all Component.isName ↔ ".." ∉ ps := by
  induction ps with
  | nil => simp
  | cons p rest ih =>
    by_cases hstay : isStay p
    · have hp : p ≠ ".." := by
        rintro rfl
        exact absurd hstay (by decide)
      rw [List.filterMap_cons_none (by simp [Component.ofPiece?, hstay]), ih]
      simp [hp.symm]
    · by_cases hup : p = ".."
      · have hpiece : Component.ofPiece? p = some .up := by rw [hup]; rfl
        rw [List.filterMap_cons_some hpiece]
        simp [Component.isName, hup]
      · have hpiece : Component.ofPiece? p = some (.name p) := by
          simp [Component.ofPiece?, hstay, hup]
        rw [List.filterMap_cons_some hpiece, List.all_cons, Bool.and_eq_true, ih]
        simp [Component.isName, Ne.symm hup]

theorem isInner_iff {name : String} :
    isInner name ↔ name ≠ "" ∧ name.toList.head? ≠ some '/' ∧
      (pieces name).head? ≠ some "." ∧ ".." ∉ pieces name := by
  unfold isInner components
  rw [Bool.and_eq_true, List.all_append, Bool.and_eq_true, all_isName_filterMap]
  by_cases habsolute : isAbsolute name
  · have hhead : name.toList.head? = some '/' := by simpa [isAbsolute] using habsolute
    simp [habsolute, hhead, Component.isName]
  · have hhead : name.toList.head? ≠ some '/' := by simpa [isAbsolute] using habsolute
    by_cases hdot : (pieces name).head? = some "."
    · simp [habsolute, hdot, Component.isName]
    · simp [habsolute, hdot, hhead]

theorem exists_first_of_isInner {name : String} (h : isInner name) :
    ∃ first rest, pieces name = first :: rest ∧ isName first := by
  obtain ⟨hne, hslash, hdot, hup⟩ := isInner_iff.mp h
  obtain ⟨first, rest, hpieces⟩ : ∃ first rest, pieces name = first :: rest := by
    cases hpieces : pieces name with
    | nil => exact absurd (List.map_eq_nil_iff.mp hpieces) (Text.pieces_ne_nil _ _)
    | cons first rest => exact ⟨first, rest, rfl⟩
  rw [hpieces] at hdot hup
  refine ⟨first, rest, hpieces, ?_⟩
  have hempty : first ≠ "" := by
    rintro rfl
    -- an empty first piece comes from an empty name or from a slash at its start
    cases hname : name.toList with
    | nil => exact hne (String.toList_eq_nil_iff.mp hname)
    | cons c cs =>
      have hc : c ≠ '/' := fun hc => hslash (by rw [hname, hc]; rfl)
      rw [pieces, hname, Text.pieces, if_neg hc] at hpieces
      cases hcs : Text.pieces '/' cs with
      | nil => exact absurd hcs (Text.pieces_ne_nil _ _)
      | cons p ps => simp [hcs] at hpieces
  have hstays : first ≠ "." ∧ first ≠ ".." := by
    refine ⟨fun hfirst => hdot (by rw [hfirst]; rfl), fun hfirst => hup ?_⟩
    rw [hfirst]
    exact List.mem_cons_self
  simp [isName, hempty, hstays]

theorem descend?_append (below first rest : List String) :
    descend? below (first ++ rest) = (descend? below first).bind (descend? · rest) := by
  induction first generalizing below with
  | nil => rfl
  | cons p others ih =>
    rw [List.cons_append, descend?, descend?]
    split
    · exact ih below
    · split
      · split
        · rfl
        · exact ih below.dropLast
      · exact ih (below ++ [p])

theorem descend?_of_not_mem {ps : List String} (h : ".." ∉ ps) (below : List String) :
    descend? below ps = some (below ++ ps.filter fun p => !isStay p) := by
  induction ps generalizing below with
  | nil => simp [descend?]
  | cons p rest ih =>
    obtain ⟨hp, hrest⟩ := not_or.mp (mt List.mem_cons.mpr h)
    rw [descend?]
    by_cases hstay : isStay p
    · rw [if_pos hstay, ih hrest]
      simp [hstay]
    · rw [if_neg hstay, if_neg (Ne.symm hp), ih hrest]
      simp [hstay]

theorem exists_descend?_singleton {below : List String} (h : below ≠ []) (p : String) :
    ∃ inner, descend? below [p] = some inner := by
  rw [descend?]
  split
  · exact ⟨below, rfl⟩
  · split
    · exact ⟨below.dropLast, rfl⟩
    · exact ⟨below ++ [p], rfl⟩

theorem append_ne_up {first : String} (h : isName first) (ending : String) :
    first ++ ending ≠ ".." := by
  intro heq
  simp only [isName, Bool.and_eq_true, decide_eq_true_eq] at h
  obtain ⟨⟨hempty, hdot⟩, hup⟩ := h
  have hsplit : first.toList ++ ending.toList = ['.', '.'] := by
    rw [← String.toList_append, heq]
    rfl
  rcases List.append_eq_cons_iff.mp hsplit with ⟨hnil, -⟩ | ⟨rest, hfirst, hrest⟩
  · exact hempty (String.toList_eq_nil_iff.mp hnil)
  rcases List.append_eq_cons_iff.mp hrest.symm with ⟨hnil, -⟩ | ⟨more, hmore, hnone⟩
  · exact hdot (String.toList_inj.mp (by rw [hfirst, hnil]; rfl))
  · have hmore' : more = [] := (List.append_eq_nil_iff.mp hnone.symm).1
    exact hup (String.toList_inj.mp (by rw [hfirst, hmore, hmore']; rfl))

/-- An inner path never climbs, whatever stands after its last piece. -/
theorem exists_descend?_of_isInner {name ending : String} (h : isInner name)
    (hending : '/' ∉ ending.toList) :
    ∃ inner, descend? [] (pieces (name ++ ending)) = some inner := by
  obtain ⟨before, last, hpieces, hlonger⟩ := exists_pieces_append hending name
  obtain ⟨first, rest, hfirst, hname⟩ := exists_first_of_isInner h
  have hup := (isInner_iff.mp h).2.2.2
  rw [hlonger]
  cases before with
  | nil =>
    -- the extension goes to the first piece
    obtain rfl : first = last := (List.cons.inj (hfirst.symm.trans hpieces)).1
    rw [List.nil_append, descend?, if_neg (append_ne_up hname ending)]
    split
    · exact ⟨_, rfl⟩
    · exact ⟨_, rfl⟩
  | cons first' more =>
    -- the first piece is a name below the folder, above which the last one does not lead
    obtain rfl : first = first' := (List.cons.inj (hfirst.symm.trans hpieces)).1
    have hbefore : ".." ∉ first :: more := fun hmem =>
      hup (hpieces ▸ List.mem_append_left _ hmem)
    have hstay : ¬ isStay first := by
      simp only [isName, Bool.and_eq_true, decide_eq_true_eq] at hname
      simp [isStay, hname]
    rw [descend?_append, descend?_of_not_mem hbefore, List.nil_append, Option.bind_some,
      List.filter_cons_of_pos (by simp [hstay])]
    exact exists_descend?_singleton (List.cons_ne_nil _ _) _

/-- A path joined to a root has the pieces of both; a slash at the end of the root is not
doubled. -/
theorem exists_pieces_join {path : String} (h : isAbsolute path = false) (root : String) :
    ∃ base, pieces (join root path) = base ++ pieces path ∧
      (pieces root = base ∨ pieces root = base ++ [""]) := by
  unfold join
  by_cases hempty : root = ""
  · exact ⟨[], by simp [hempty], .inr (by rw [hempty]; rfl)⟩
  rw [if_neg (by simp [h, hempty])]
  split
  · next hslash =>
    obtain ⟨start, hstart⟩ : ['/'] <:+ root.toList := by
      rw [String.endsWith_eq_endsWith_toSlice, String.Slice.endsWith_string_iff] at hslash
      simpa using hslash
    obtain rfl : root = String.ofList start ++ "/" := by
      rw [← String.toList_inj, ← hstart]
      simp
    have hroot := pieces_append_slash (String.ofList start) ""
    rw [String.append_empty] at hroot
    exact ⟨pieces (String.ofList start), pieces_append_slash _ _, .inr hroot⟩
  · exact ⟨pieces root, pieces_append_slash _ _, .inl rfl⟩

theorem isAbsolute_append {path : String} (h : path ≠ "") (rest : String) :
    isAbsolute (path ++ rest) = isAbsolute path := by
  unfold isAbsolute
  cases hpath : path.toList with
  | nil => exact absurd (String.toList_eq_nil_iff.mp hpath) h
  | cons c cs => simp [hpath]

theorem isAbsolute_join {path : String} (h : isAbsolute path = false) (root : String) :
    isAbsolute (join root path) = isAbsolute root := by
  unfold join
  by_cases hempty : root = ""
  · rw [if_pos (by simp [hempty]), h, hempty]
    rfl
  rw [if_neg (by simp [h, hempty])]
  split
  · exact isAbsolute_append hempty _
  · rw [String.append_assoc]
    exact isAbsolute_append hempty _

end Path

namespace Disk

variable {d other : Disk}

theorem walk_stay (d : Disk) (start : Place) {p q : String} (h : Path.isStay p)
    (rest : List String) : d.walk start (p :: q :: rest) = d.walk start (q :: rest) := by
  rw [walk]
  cases hfolder : d.folderAt start with
  | error err =>
    rw [walk, hfolder]
    rfl
  | ok _ => exact if_pos h

theorem walk_join (d : Disk) {root path : String} (h : Path.isAbsolute path = false) :
    d.walk (d.start (Path.join root path)) (Path.pieces (Path.join root path)) =
      (d.walk (d.start root) (Path.pieces root)).bind (d.walk · (Path.pieces path)) := by
  obtain ⟨base, hjoin, hroot⟩ := Path.exists_pieces_join h root
  have hstart : d.start (Path.join root path) = d.start root := by
    rw [start, start, Path.isAbsolute_join h]
  rw [hstart, hjoin]
  rcases hroot with hroot | hroot
  · rw [hroot, walk_append]
  · obtain ⟨p, rest, hpath⟩ : ∃ p rest, Path.pieces path = p :: rest := by
      cases hpath : Path.pieces path with
      | nil => exact absurd (List.map_eq_nil_iff.mp hpath) (Text.pieces_ne_nil _ _)
      | cons p rest => exact ⟨p, rest, rfl⟩
    rw [hroot, ← walk_append, hpath, List.append_assoc, walk_append,
      walk_append]
    congr 1
    funext middle
    exact (walk_stay d middle rfl rest).symm

/-- The folder `root` lies in the same place on both disks, if it can be reached at all, and both
hold the same there and below. -/
structure AgreeIn (root : String) (d other : Disk) : Prop where
  way : other.walk (other.start root) (Path.pieces root) = d.walk (d.start root) (Path.pieces root)
  inside : ∀ folder, d.walk (d.start root) (Path.pieces root) = .ok folder →
    ∀ place, folder <+: place → other.node? place = d.node? place

/-- A walk that does not climb above a folder ends below it, at the names to which it has come, and
depends on nothing else. -/
theorem walk_of_descend? {folder : Place}
    (hsame : ∀ place, folder <+: place → other.node? place = d.node? place)
    {below ps inner : List String} (h : Path.descend? below ps = some inner) :
    other.walk (folder ++ below) ps = d.walk (folder ++ below) ps ∧
      ∀ place, d.walk (folder ++ below) ps = .ok place → place = folder ++ inner := by
  induction ps generalizing below with
  | nil =>
    obtain rfl := Option.some.inj h
    exact ⟨rfl, fun place hplace => (Except.ok.inj hplace).symm⟩
  | cons p rest ih =>
    have hfolder : other.folderAt (folder ++ below) = d.folderAt (folder ++ below) := by
      rw [folderAt, folderAt, hsame _ (List.prefix_append folder below)]
    rw [Path.descend?] at h
    rw [walk, walk, hfolder]
    cases d.folderAt (folder ++ below) with
    | error err => exact ⟨rfl, fun place hplace => by cases hplace⟩
    | ok _ =>
      simp only [bind, Except.bind]
      by_cases hstay : Path.isStay p
      · rw [if_pos hstay] at h
        rw [if_pos hstay, if_pos hstay]
        exact ih h
      rw [if_neg hstay] at h
      rw [if_neg hstay, if_neg hstay]
      by_cases hup : p = ".."
      · rw [if_pos hup] at h
        obtain ⟨hbelow, h⟩ := Option.ite_none_left_eq_some.mp h
        rw [if_pos hup, if_pos hup, List.dropLast_append_of_ne_nil hbelow]
        exact ih h
      rw [if_neg hup] at h
      rw [if_neg hup, if_neg hup]
      split
      · exact ⟨rfl, fun place hplace => by cases hplace⟩
      · rw [List.append_assoc]
        exact ih h

theorem AgreeIn.read_join {root path : String} {inner : List String} (h : AgreeIn root d other)
    (hpath : Path.isAbsolute path = false)
    (hinner : Path.descend? [] (Path.pieces path) = some inner) :
    other.read (Path.join root path) = d.read (Path.join root path) := by
  have hfind : other.find (Path.join root path) = d.find (Path.join root path) := by
    rw [find, find, walk_join other hpath, walk_join d hpath, h.way]
    cases hroot : d.walk (d.start root) (Path.pieces root) with
    | error err => rfl
    | ok folder =>
      have hsame := h.inside folder hroot
      obtain ⟨hwalk, hplace⟩ := walk_of_descend? hsame hinner
      rw [List.append_nil] at hwalk hplace
      simp only [Except.bind, hwalk]
      cases hend : d.walk folder (Path.pieces path) with
      | error err => rfl
      | ok place =>
        obtain rfl := hplace place hend
        simp only [bind, Except.bind, hsame _ (List.prefix_append folder inner)]
  rw [read, read, hfind]

end Disk

/-- What is answered for a script whose file cannot be read. -/
def StorageError.ofFile (path : String) : FileError → StorageError
  | .missing => .notFound path
  | err => .failed path err.message

namespace FolderStorage

/-- A script of this name is looked for, whether or not it is there. -/
def Accepts (s : FolderStorage) (name : String) : Prop :=
  ∀ refused, s.read name ≠ .error (.invalidName refused)

variable {s : FolderStorage} {name : String}

theorem accepts_iff : s.Accepts name ↔ Path.isInner name := by
  unfold Accepts read scriptPath
  by_cases hinner : Path.isInner name
  · rw [if_pos hinner]
    refine ⟨fun _ => hinner, fun _ refused => ?_⟩
    simp only [bind, Except.bind]
    split
    · exact nofun
    · exact nofun
    · exact nofun
  · rw [if_neg hinner]
    exact ⟨fun h => absurd rfl (h name), fun h => absurd h hinner⟩

theorem isAbsolute_of_isInner (h : Path.isInner name) (ending : String) :
    Path.isAbsolute (name ++ ending) = false := by
  obtain ⟨hne, hslash, -⟩ := Path.isInner_iff.mp h
  rw [Path.isAbsolute_append hne]
  simpa [Path.isAbsolute] using hslash

/-- A script of an inner name is read from the file at the path of the name. -/
theorem read_of_isInner (h : Path.isInner name) :
    s.read name = (s.disk.read (Path.join s.root (name ++ s.extension))).mapError
      (.ofFile (Path.join s.root (name ++ s.extension))) := by
  unfold read scriptPath
  rw [if_pos h]
  simp only [bind, Except.bind]
  cases s.disk.read (Path.join s.root (name ++ s.extension)) with
  | ok text => rfl
  | error err => cases err <;> rfl

theorem read_of_agreeIn {other : Disk} (hextension : '/' ∉ s.extension.toList)
    (h : s.disk.AgreeIn s.root other) :
    ({ s with disk := other } : FolderStorage).read = s.read := by
  funext name
  by_cases hinner : Path.isInner name
  · obtain ⟨inner, hdescend⟩ := Path.exists_descend?_of_isInner hinner hextension
    have hread := h.read_join (isAbsolute_of_isInner hinner s.extension) hdescend
    rw [read_of_isInner hinner, read_of_isInner hinner, hread]
  · simp only [read, scriptPath, if_neg hinner, bind, Except.bind]

/-- Script names do not lead out of the folder. A name is refused unless it is something, begins
neither with a slash nor with a dot as its first piece, and has no two dots as a piece. Of any other
name the text with the extension after it is joined to the root, and the file at this path is the
one that is read. The pieces of the text, one by one, lead to a place below the folder without
climbing above it, whatever piece the extension makes of the last one. So no script, by the imports
in it, can bring a load to look at anything outside the folder: loads are the same on all disks that
hold the same in it. -/
theorem names_stay_in_folder (s : FolderStorage) :
    (∀ name, s.Accepts name ↔ name ≠ "" ∧ name.toList.head? ≠ some '/' ∧
      (Path.pieces name).head? ≠ some "." ∧ ".." ∉ Path.pieces name) ∧
    ('/' ∉ s.extension.toList →
      (∀ name, s.Accepts name →
        let path := Path.join s.root (name ++ s.extension)
        s.scriptPath name = .ok path ∧
        s.read name = (s.disk.read path).mapError (.ofFile path) ∧
        ∃ inner, Path.descend? [] (Path.pieces (name ++ s.extension)) = some inner ∧
          ∀ folder place, s.disk.walk (s.disk.start s.root) (Path.pieces s.root) = .ok folder →
            s.disk.walk (s.disk.start path) (Path.pieces path) = .ok place →
            place = folder ++ inner) ∧
      ∀ other, s.disk.AgreeIn s.root other → ∀ settings name,
        Script.load settings ({ s with disk := other } : FolderStorage).read name =
          Script.load settings s.read name) := by
  refine ⟨fun name => accepts_iff.trans Path.isInner_iff, fun hextension =>
    ⟨fun name haccepts => ?_, fun other hagree settings name => ?_⟩⟩
  · have hinner := accepts_iff.mp haccepts
    obtain ⟨inner, hdescend⟩ := Path.exists_descend?_of_isInner hinner hextension
    refine ⟨if_pos hinner, read_of_isInner hinner, inner, hdescend, ?_⟩
    intro folder place hfolder hplace
    rw [Disk.walk_join s.disk (isAbsolute_of_isInner hinner s.extension), hfolder] at hplace
    have hwalk : ∀ place,
        s.disk.walk (folder ++ []) (Path.pieces (name ++ s.extension)) = .ok place →
          place = folder ++ inner := (Disk.walk_of_descend? (fun _ _ => rfl) hdescend).2
    rw [List.append_nil] at hwalk
    exact hwalk place hplace
  · rw [read_of_agreeIn hextension hagree]

/-- A dot at the end of a name and a dot for an extension lead back to the folder, not above it; a
script beside the folder is not found. -/
theorem names_stay_in_folder_of_dots :
    let disk : Disk := ({} : Disk).plant ["tas", "a", "b."] (.file (some "import=a/.\n2,X"))
    let s : FolderStorage := ⟨disk, "tas", "."⟩
    let other := disk.put ["c."] (.file (some "5,Up"))
    s.Accepts "a/." ∧ s.scriptPath "a/." = .ok "tas/a/.." ∧
      Path.descend? [] (Path.pieces ("a/." ++ ".")) = some [] ∧ ¬ s.Accepts "a/../../c" ∧
      s.read "a/b" = .ok "import=a/.\n2,X" ∧ s.read "a/c" = .error (.notFound "tas/a/c.") ∧
      ∀ name, Script.load {} ({ s with disk := other } : FolderStorage).read name =
        Script.load {} s.read name := by
  intro disk s other
  obtain ⟨haccepts, hinside⟩ := names_stay_in_folder s
  obtain ⟨hpaths, hloads⟩ := hinside (by decide)
  have hname : s.Accepts "a/." := (haccepts "a/.").mpr (by decide)
  obtain ⟨hpath, -, inner, hdescend, -⟩ := hpaths "a/." hname
  obtain ⟨-, hread, -⟩ := hpaths "a/b" ((haccepts "a/b").mpr (by decide))
  obtain ⟨-, hnone, -⟩ := hpaths "a/c" ((haccepts "a/c").mpr (by decide))
  have hagree : s.disk.AgreeIn s.root other := by
    refine ⟨by decide +kernel, fun folder hfolder place hplace => ?_⟩
    obtain rfl : ["tas"] = folder := by
      have htas : s.disk.walk (s.disk.start s.root) (Path.pieces s.root) = .ok ["tas"] := by
        decide +kernel
      exact Except.ok.inj (htas.symm.trans hfolder)
    have hne : place ≠ ["c."] := by
      rintro rfl
      exact absurd hplace (by decide)
    have hput := Disk.node?_put disk (List.cons_ne_nil "c." []) place (.file (some "5,Up"))
    rw [if_neg hne] at hput
    exact hput
  refine ⟨hname, hpath.trans (by decide +kernel), hdescend.trans ?_, ?_,
    hread.trans (by decide +kernel), hnone.trans (by decide +kernel), hloads other hagree {}⟩
  · have hnone : Path.descend? [] (Path.pieces ("a/." ++ s.extension)) = some [] := by decide
    exact hdescend.symm.trans hnone
  · exact fun hup => absurd ((haccepts "a/../../c").mp hup) (by decide)

end FolderStorage
end PadScript
