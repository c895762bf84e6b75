import PadScript.Proofs.Context
import PadScript.Proofs.Inlining
import PadScript.Storage.Memory

/-!
# The meaning of a script

A script means one segment for each of its accepted rows: settings and axes are the last ones
given so far, buttons are those of the row alone. The rows are counted over the flat list of
lines, in which every import is followed by the lines of what it imports.
-/
namespace PadScript.Script

def Entry.rate? (e : Entry) : Option UInt32 :=
  match e.reading.line with
  | some (.directive (.frameRate rate)) => some rate
  | _ => none

def Entry.skipMovies? (e : Entry) : Option Bool :=
  match e.reading.line with
  | some (.directive (.skipMovies on)) => some on
  | _ => none

def Entry.marker? (e : Entry) : Option String :=
  match e.reading.line with
  | some (.directive (.marker name)) => some name
  | _ => none

def Field.button? : Field → Option Button
  | .button b => some b
  | .axis _ _ => none

def Field.value? (a : Axis) : Field → Option Single
  | .button _ => none
  | .axis b value => if b = a then some value else none

def last? {α β : Type} (f : α → Option β) (xs : List α) : Option β := (xs.filterMap f).getLast?

/-- A row that counts, and all lines before it. -/
structure AcceptedRow where
  before : List Entry
  frames : UInt64
  fields : List Field
  deriving DecidableEq, Repr

/-- A row is accepted if it has frames and the sum of the accepted ones stays below the largest
frame number; `total` frames have been accepted in the lines `before`. -/
def acceptedFrom (total : Nat) (before : List Entry) : List Entry → List AcceptedRow
  | [] => []
  | e :: rest =>
    match e.reading.line with
    | some (.row frames fields) =>
      if 0 < frames.toNat ∧ total + frames.toNat < Frame.largest.toNat then
        ⟨before, frames, fields⟩ :: acceptedFrom (total + frames.toNat) (before ++ [e]) rest
      else acceptedFrom total (before ++ [e]) rest
    | _ => acceptedFrom total (before ++ [e]) rest

def accepted (flat : List Entry) : List AcceptedRow := acceptedFrom 0 [] flat

/-- The segment `s` is what `row` says after the accepted rows `earlier`, in a game that runs at
`rate`. -/
structure Means (rate : UInt32) (earlier : List AcceptedRow) (row : AcceptedRow) (s : Segment) :
    Prop where
  frames : s.frameCount = row.frames.toNat
  buttons : s.input.buttons = .ofList (row.fields.filterMap Field.button?)
  axes : ∀ a, s.input.axes.get a =
    (last? (Field.value? a) ((earlier ++ [row]).flatMap AcceptedRow.fields)).getD .zero
  rate : s.rate = (last? Entry.rate? row.before).getD rate
  skipMovies : s.skipMovies = (last? Entry.skipMovies? row.before).getD false
  marker : s.marker = last? Entry.marker? row.before

theorem last?_append {α β : Type} (f : α → Option β) (xs ys : List α) :
    last? f (xs ++ ys) = (last? f ys).or (last? f xs) := by
  simp [last?, List.getLast?_append]

theorem last?_singleton {α β : Type} (f : α → Option β) (x : α) : last? f [x] = f x := by
  cases h : f x <;> simp [last?, h]

theorem last?_snoc {α β : Type} (f : α → Option β) (xs : List α) (x : α) :
    last? f (xs ++ [x]) = (f x).or (last? f xs) := by
  rw [last?_append, last?_singleton]

theorem getD_last?_append {α β : Type} (f : α → Option β) (xs ys : List α) (d : β) :
    (last? f (xs ++ ys)).getD d = (last? f ys).getD ((last? f xs).getD d) := by
  rw [last?_append]
  cases last? f ys <;> rfl

namespace Draft

theorem buttons_press (input : Controller) (fields : List Field) :
    (press input fields).buttons =
      (fields.filterMap Field.button?).foldl (fun s b => s.union (.ofButton b)) input.buttons := by
  induction fields generalizing input with
  | nil => rfl
  | cons field rest ih =>
    rw [press, List.foldl_cons, ← press, ih]
    cases field <;> rfl

theorem axes_press (input : Controller) (fields : List Field) (a : Axis) :
    (press input fields).axes.get a =
      (last? (Field.value? a) fields).getD (input.axes.get a) := by
  induction fields generalizing input with
  | nil => rfl
  | cons field rest ih =>
    rw [press, List.foldl_cons, ← press, ih, ← List.singleton_append, getD_last?_append,
      last?_singleton]
    cases field with
    | button b => rfl
    | axis b value =>
      simp only [Field.value?, Axes.get_set]
      split <;> rfl

end Draft

namespace Context

theorem rowSegment?_isSome (c : Context) (source : Location) (frames : UInt64)
    (fields : List Field) :
    (c.rowSegment? source frames fields).isSome ↔
      0 < frames.toNat ∧ c.last.toNat + frames.toNat < Frame.largest.toNat := by
  have hframes : frames = 0 ↔ ¬ 0 < frames.toNat := by
    rw [← UInt64.toNat_inj, UInt64.toNat_zero]
    omega
  unfold rowSegment? Frame.later?
  split
  · next h => simp [hframes.mp h]
  · next h => simp [not_not.mp (mt hframes.mpr h)]

theorem rowSegment?_settings {c : Context} {source : Location} {frames : UInt64}
    {fields : List Field} {s : Segment} (hs : c.rowSegment? source frames fields = some s) :
    s.rate = c.rate ∧ s.skipMovies = c.skipMovies ∧ s.marker = c.marker ∧
      s.input = Draft.press ⟨.empty, c.axes⟩ fields := by
  simp only [rowSegment?, Option.ite_none_left_eq_some, Option.map_eq_some_iff] at hs
  obtain ⟨-, last, -, rfl⟩ := hs
  exact ⟨rfl, rfl, rfl, rfl⟩

theorem row_settings (c : Context) (source : Location) (frames : UInt64) (fields : List Field) :
    (c.row source frames fields).rate = c.rate ∧
      (c.row source frames fields).skipMovies = c.skipMovies ∧
      (c.row source frames fields).marker = c.marker := by
  unfold row
  split
  · next s hs =>
    obtain ⟨hrate, hskip, hmarker, -⟩ := rowSegment?_settings hs
    exact ⟨hrate, hskip, hmarker⟩
  · split <;> exact ⟨rfl, rfl, rfl⟩

theorem rate_next (c : Context) (e : Entry) : (c.next e).rate = e.rate?.getD c.rate := by
  unfold next Entry.rate?
  rcases e.reading.line with _ | _ | directive | ⟨frames, fields⟩
  · rfl
  · rfl
  · cases directive <;> rfl
  · exact (c.row_settings e.source frames fields).1

theorem skipMovies_next (c : Context) (e : Entry) :
    (c.next e).skipMovies = e.skipMovies?.getD c.skipMovies := by
  unfold next Entry.skipMovies?
  rcases e.reading.line with _ | _ | directive | ⟨frames, fields⟩
  · rfl
  · rfl
  · cases directive <;> rfl
  · exact (c.row_settings e.source frames fields).2.1

theorem marker_next (c : Context) (e : Entry) : (c.next e).marker = e.marker?.or c.marker := by
  unfold next Entry.marker?
  rcases e.reading.line with _ | _ | directive | ⟨frames, fields⟩
  · rfl
  · rfl
  · cases directive <;> rfl
  · exact (c.row_settings e.source frames fields).2.2

theorem axes_next (c : Context) (e : Entry) :
    (c.next e).axes = ((c.segment? e).map fun s => s.input.axes).getD c.axes := by
  unfold next segment?
  rcases e.reading.line with _ | _ | directive | ⟨frames, fields⟩
  · rfl
  · rfl
  · cases directive <;> rfl
  · dsimp only
    unfold row
    cases c.rowSegment? e.source frames fields with
    | some s => rfl
    | none =>
      show (if frames = 0 then c else c.touch e.source).axes = c.axes
      split <;> rfl

/-- The context `c` is what the lines `before` hand on, of which the rows `earlier` were
accepted. -/
structure After (rate : UInt32) (before : List Entry) (earlier : List AcceptedRow)
    (c : Context) : Prop where
  below : c.last.toNat < Frame.largest.toNat
  rate : c.rate = (last? Entry.rate? before).getD rate
  skipMovies : c.skipMovies = (last? Entry.skipMovies? before).getD false
  marker : c.marker = last? Entry.marker? before
  axes : ∀ a, c.axes.get a =
    (last? (Field.value? a) (earlier.flatMap AcceptedRow.fields)).getD .zero

theorem after_nil (rate : UInt32) : After rate [] [] { rate } where
  below := show (0 : Frame).toNat < Frame.largest.toNat by decide
  rate := rfl
  skipMovies := rfl
  marker := rfl
  axes a := by cases a <;> rfl

variable {rate : UInt32} {before : List Entry} {earlier : List AcceptedRow} {c : Context}

theorem After.snoc (h : After rate before earlier c) {e : Entry} {rows : List AcceptedRow}
    (haxes : ∀ a, (c.next e).axes.get a =
      (last? (Field.value? a) (rows.flatMap AcceptedRow.fields)).getD .zero) :
    After rate (before ++ [e]) rows (c.next e) where
  below := last_next_lt h.below e
  rate := by
    rw [rate_next, h.rate, last?_snoc]
    cases e.rate? <;> rfl
  skipMovies := by
    rw [skipMovies_next, h.skipMovies, last?_snoc]
    cases e.skipMovies? <;> rfl
  marker := by rw [marker_next, h.marker, last?_snoc]
  axes := haxes

theorem After.next (h : After rate before earlier c) {e : Entry} (hs : c.segment? e = none) :
    After rate (before ++ [e]) earlier (c.next e) := by
  refine h.snoc fun a => ?_
  rw [axes_next, hs]
  exact h.axes a

theorem After.means (h : After rate before earlier c) {source : Location} {frames : UInt64}
    {fields : List Field} {s : Segment} (hs : c.rowSegment? source frames fields = some s) :
    Means rate earlier ⟨before, frames, fields⟩ s := by
  obtain ⟨hfirst, hlast, hne, -⟩ := rowSegment?_eq_some h.below hs
  obtain ⟨hrate, hskip, hmarker, hinput⟩ := rowSegment?_settings hs
  refine ⟨?_, ?_, fun a => ?_, hrate.trans h.rate, hskip.trans h.skipMovies,
    hmarker.trans h.marker⟩
  · rw [Segment.frameCount_eq (by omega) (by omega)]
    show _ = frames.toNat
    omega
  · rw [hinput, Draft.buttons_press]
    rfl
  · rw [hinput, Draft.axes_press, List.flatMap_append, getD_last?_append, ← h.axes]
    simp

theorem After.next_row (h : After rate before earlier c) {e : Entry} {frames : UInt64}
    {fields : List Field} {s : Segment} (hline : e.reading.line = some (.row frames fields))
    (hs : c.rowSegment? e.source frames fields = some s) :
    After rate (before ++ [e]) (earlier ++ [⟨before, frames, fields⟩]) (c.next e) := by
  have hsegment : c.segment? e = some s := by
    simp only [segment?, hline]
    exact hs
  refine h.snoc fun a => ?_
  rw [axes_next, hsegment]
  exact (h.means hs).axes a

theorem acceptedFrom_of_none {e : Entry} (hs : c.segment? e = none) (before rest : List Entry) :
    acceptedFrom c.last.toNat before (e :: rest) =
      acceptedFrom (c.next e).last.toNat (before ++ [e]) rest := by
  have hlast : (c.next e).last = c.last := by rw [last_next, hs]; rfl
  rw [hlast, acceptedFrom]
  split
  · next frames fields hline =>
    simp only [segment?, hline] at hs
    have := (c.rowSegment?_isSome e.source frames fields).not.mp (by simp [hs])
    rw [if_neg this]
  · rfl

theorem acceptedFrom_of_row {e : Entry} {frames : UInt64} {fields : List Field} {s : Segment}
    (hbelow : c.last.toNat < Frame.largest.toNat)
    (hline : e.reading.line = some (.row frames fields))
    (hs : c.rowSegment? e.source frames fields = some s) (before rest : List Entry) :
    acceptedFrom c.last.toNat before (e :: rest) =
      ⟨before, frames, fields⟩ :: acceptedFrom (c.next e).last.toNat (before ++ [e]) rest := by
  have hlast : (c.next e).last = s.last := by
    rw [last_next]
    simp only [segment?, hline, hs]
    rfl
  have haccept := (c.rowSegment?_isSome e.source frames fields).mp (by simp [hs])
  rw [hlast, (rowSegment?_eq_some hbelow hs).2.1]
  simp only [acceptedFrom, hline]
  rw [if_pos haccept]

/-- Lines make one segment for each accepted row among them, in order, and it is what the row
means. -/
theorem After.segments_mean (h : After rate before earlier c) (entries : List Entry) :
    (c.segments entries).length = (acceptedFrom c.last.toNat before entries).length ∧
      ∀ i row s, (acceptedFrom c.last.toNat before entries)[i]? = some row →
        (c.segments entries)[i]? = some s →
        Means rate (earlier ++ (acceptedFrom c.last.toNat before entries).take i) row s := by
  induction entries generalizing before earlier c with
  | nil => simp [segments, acceptedFrom]
  | cons e rest ih =>
    cases hs : c.segment? e with
    | none =>
      obtain ⟨hlength, hmeans⟩ := ih (h.next hs)
      rw [acceptedFrom_of_none hs, segments, hs]
      exact ⟨hlength, hmeans⟩
    | some s =>
      obtain ⟨frames, fields, hline, hrow⟩ := segment?_eq_some hs
      obtain ⟨hlength, hmeans⟩ := ih (h.next_row hline hrow)
      rw [acceptedFrom_of_row h.below hline hrow, segments, hs]
      refine ⟨congrArg (· + 1) hlength, fun i row t hi ht => ?_⟩
      cases i with
      | zero =>
        obtain rfl : _ = row := Option.some.inj hi
        obtain rfl : s = t := Option.some.inj ht
        simpa using h.means hrow
      | succ i => simpa using hmeans i row t hi ht

end Context

/-- A loaded script has exactly one segment for each accepted row of its flat list of lines, in
order. The segment has the row's frame count and buttons, each axis as it was last given in the
accepted rows so far, and the settings last directed before the row; the last word on saving
results counts for the whole script. -/
theorem load_means_accepted_rows (settings : Settings) (library : Library) (name : String)
    (loaded : Loaded) (h : load settings library name = .ok loaded) :
    let root := if name = "" then settings.mainScript else name
    ∃ flat, Flattens library ⟨root, 0⟩ root flat ∧
      (∀ other, Flattens library ⟨root, 0⟩ root other → other = flat) ∧
      loaded.store.segments.length = (accepted flat).length ∧
      (∀ i row s, (accepted flat)[i]? = some row → loaded.store.segments[i]? = some s →
        Means settings.rate ((accepted flat).take i) row s) ∧
      loaded.saveResults = (last? Entry.saveResults? flat).getD false := by
  obtain ⟨flat, hflat, rfl⟩ := load_eq_ok h
  have hscript := Flat.flattens_of_ofScript hflat
  obtain ⟨hlength, hmeans⟩ := (Context.after_nil settings.rate).segments_mean flat
  refine ⟨flat, hscript, fun other hother => hother.unique hscript, ?_, ?_, ?_⟩
  · rw [assemble_eq]
    exact hlength
  · rw [assemble_eq]
    exact hmeans
  · rw [assemble_eq]
    rfl

/-- An import counts where it stands, and a row without frames does not count. -/
theorem load_means_accepted_rows_of_import :
    let scripts : Texts := [("main", "frame-rate=30\n3,X\nimport=jump\n1"),
      ("jump", "frame-rate=5\n0,X\n2,Up,player-speed=0.5\nsave-results=true")]
    ∃ loaded, load {} (Storage.read (MemoryStorage.mk scripts [])) "" = .ok loaded ∧
      loaded.store.segments.map Segment.rate = [30, 5, 5] ∧ loaded.saveResults = true ∧
      ∃ flat, Flattens (Storage.read (MemoryStorage.mk scripts [])) ⟨"main", 0⟩ "main" flat ∧
        (accepted flat).length = 3 ∧
        ∀ i row s, (accepted flat)[i]? = some row → loaded.store.segments[i]? = some s →
          Means 60 ((accepted flat).take i) row s := by
  intro scripts
  have hview : (load {} (Storage.read (MemoryStorage.mk scripts [])) "").toOption.map
      (fun loaded => (loaded.store.segments.map Segment.rate, loaded.saveResults)) =
        some ([30, 5, 5], true) := by
    decide +kernel
  obtain ⟨loaded, hload, hloaded⟩ := load_of_view hview
  obtain ⟨hrates, hsave⟩ := Prod.mk.inj hloaded
  obtain ⟨flat, hflat, -, hlength, hmeans, -⟩ := load_means_accepted_rows _ _ _ loaded hload
  have hthree := congrArg List.length hrates
  rw [List.length_map, hlength] at hthree
  exact ⟨loaded, hload, hrates, hsave, flat, hflat, hthree, hmeans⟩

end PadScript.Script
