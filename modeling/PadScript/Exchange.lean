import PadScript.Json.Reader
import PadScript.Json.Record
import PadScript.Json.Single
import PadScript.Json.Writer
import PadScript.Results.Tracker

/-!
# Records of the domain in JSON

Every record has an encoding `toJson`, and those that are read a decoding `ofJson?`.
-/
namespace PadScript

namespace Json

def word16? (v : Json) : Option UInt16 := (v.natural? UInt16.size).map UInt16.ofNat

def word32? (v : Json) : Option UInt32 := (v.natural? UInt32.size).map UInt32.ofNat

def word64? (v : Json) : Option UInt64 := (v.natural? UInt64.size).map UInt64.ofNat

end Json

namespace Buttons

def toJson (b : Buttons) : Json := .ofNat b.mask.toNat

def ofJson? (v : Json) : Option Buttons := v.word16?.map Buttons.mk

end Buttons

namespace Axes

def members (a : Axes) : List (String × Json) :=
  [("player_angle", .ofSingle a.playerAngle), ("player_speed", .ofSingle a.playerSpeed),
    ("camera_angle", .ofSingle a.cameraAngle), ("camera_zoom", .ofSingle a.cameraZoom)]

end Axes

namespace Controller

def members (c : Controller) : List (String × Json) :=
  ("buttons", c.buttons.toJson) :: c.axes.members

def keys : List String :=
  ["buttons", "player_angle", "player_speed", "camera_angle", "camera_zoom"]

def toJson (c : Controller) : Json := .record c.members

/-- The controller whose parts are read from five slots by `buttons` and `axis`. -/
def ofSlots? (buttons : Json.Slot → Option Buttons) (axis : Json.Slot → Option Single) :
    List Json.Slot → Option Controller
  | [b, pa, ps, ca, cz] => do
    return ⟨← buttons b, ← axis pa, ← axis ps, ← axis ca, ← axis cz⟩
  | _ => none

def ofJson? (v : Json) : Option Controller :=
  (v.slots keys).bind <| ofSlots?
    (Json.Slot.orElse Buttons.empty Buttons.ofJson?) (Json.Slot.orElse Single.zero Json.single?)

/-- The controller of a record in which no field may be missing. -/
def ofFullSlots? : List Json.Slot → Option Controller :=
  ofSlots? (Json.Slot.required Buttons.ofJson?) (Json.Slot.required Json.single?)

def trace? (text : String) : Option (List Controller) := do
  (← (← Json.parse text).list?).mapM ofJson?

end Controller

namespace Location

def toJson (l : Location) : Json :=
  .record [("file", .ofString l.file), ("line", .ofNat l.line.toNat)]

def ofJson? (v : Json) : Option Location := do
  match ← v.slots ["file", "line"] with
  | [file, line] => return ⟨← file.required Json.string?, ← line.required Json.word64?⟩
  | _ => none

end Location

namespace Json

def ofMarker (marker : Option String) : Json := (marker.map ofString).getD null

def markerMembers (marker : Option String) : List (String × Json) :=
  (marker.map fun m => ("marker", ofString m)).toList

end Json

namespace Segment

def keys : List String :=
  ["first_frame", "last_frame", "source", "frame_rate", "skip_spool_movies", "marker"] ++
    Controller.keys

def toJson (s : Segment) : Json :=
  .record <|
    [("first_frame", .ofNat s.first.toNat), ("last_frame", .ofNat s.last.toNat),
      ("source", s.source.toJson), ("frame_rate", .ofNat s.rate.toNat),
      ("skip_spool_movies", .bool s.skipMovies), ("marker", .ofMarker s.marker)] ++
    s.input.members

def ofJson? (v : Json) : Option Segment := do
  match ← v.slots keys with
  | first :: last :: source :: rate :: skip :: marker :: input =>
    return {
      first := ← first.required Json.word64?
      last := ← last.required Json.word64?
      source := ← source.required Location.ofJson?
      rate := ← rate.required Json.word32?
      skipMovies := ← skip.required Json.bool?
      marker := ← marker.optional Json.string?
      input := ← Controller.ofFullSlots? input }
  | _ => none

end Segment

namespace Store

def toJson (s : Store) : Json := .record [("segments", .list (s.segments.map Segment.toJson))]

def ofJson? (v : Json) : Option Store := do
  match ← v.slots ["segments"] with
  | [segments] => return ⟨← (← segments.required Json.list?).mapM Segment.ofJson?⟩
  | _ => none

end Store

namespace InputFrame

def keys : List String :=
  ["tas_frame", "frame_rate", "skip_spool_movies", "is_recording_input"] ++ Controller.keys ++
    ["marker"]

def toJson (f : InputFrame) : Json :=
  .record <|
    [("tas_frame", .ofNat f.frame.toNat), ("frame_rate", .ofNat f.rate.toNat),
      ("skip_spool_movies", .bool f.skipMovies), ("is_recording_input", .bool f.recording)] ++
    f.input.members ++ Json.markerMembers f.marker

def ofJson? (v : Json) : Option InputFrame := do
  match ← v.slots keys with
  | [frame, rate, skip, recording, b, pa, ps, ca, cz, marker] =>
    return {
      frame := ← frame.required Json.word64?
      rate := ← rate.required Json.word32?
      skipMovies := ← skip.required Json.bool?
      recording := ← recording.required Json.bool?
      input := ← Controller.ofFullSlots? [b, pa, ps, ca, cz]
      marker := ← marker.optional Json.string? }
  | _ => none

end InputFrame

namespace Vec4

def toJson (v : Vec4) : Json :=
  .record [("x", .ofSingle v.x), ("y", .ofSingle v.y), ("z", .ofSingle v.z), ("w", .ofSingle v.w)]

def ofJson? (v : Json) : Option Vec4 := do
  match ← v.slots ["x", "y", "z", "w"] with
  | [x, y, z, w] =>
    return ⟨← x.required Json.single?, ← y.required Json.single?, ← z.required Json.single?,
      ← w.required Json.single?⟩
  | _ => none

end Vec4

namespace Counters

def keys : List String := ["fuel-cell-total", "money-total", "buzzer-total"]

def members (c : Counters) : List (String × Json) :=
  [("fuel-cell-total", .ofSingle c.fuelCells), ("money-total", .ofSingle c.money),
    ("buzzer-total", .ofSingle c.buzzers)]

def ofSlots? : List Json.Slot → Option Counters
  | [cells, money, buzzers] => do
    return ⟨← cells.required Json.single?, ← money.required Json.single?,
      ← buzzers.required Json.single?⟩
  | _ => none

end Counters

namespace Snapshot

def positionKeys : List String := ["player-position", "camera-position"]

def positionMembers (s : Snapshot) : List (String × Json) :=
  [("player-position", s.player.toJson), ("camera-position", s.camera.toJson)]

def ofSlots? (cells money buzzers player camera : Json.Slot) : Option Snapshot := do
  return ⟨← Counters.ofSlots? [cells, money, buzzers], ← player.required Vec4.ofJson?,
    ← camera.required Vec4.ofJson?⟩

end Snapshot

namespace FrameResults

def inputKeys : List String :=
  ["input-buttons", "input-player-angle", "input-player-speed", "input-camera-angle",
    "input-camera-zoom"]

def inputMembers (c : Controller) : List (String × Json) :=
  [("input-buttons", c.buttons.toJson), ("input-player-angle", .ofSingle c.axes.playerAngle),
    ("input-player-speed", .ofSingle c.axes.playerSpeed),
    ("input-camera-angle", .ofSingle c.axes.cameraAngle),
    ("input-camera-zoom", .ofSingle c.axes.cameraZoom)]

def toJson (r : FrameResults) : Json :=
  .record <| ("tas-frame", .ofNat r.frame.toNat) :: r.snapshot.counters.members ++
    inputMembers r.input ++ r.snapshot.positionMembers

def ofJson? (v : Json) : Option FrameResults := do
  match ← v.slots ("tas-frame" :: Counters.keys ++ inputKeys ++ Snapshot.positionKeys) with
  | [frame, cells, money, buzzers, b, pa, ps, ca, cz, player, camera] =>
    return {
      frame := ← frame.required Json.word64?
      snapshot := ← Snapshot.ofSlots? cells money buzzers player camera
      input := ← Controller.ofFullSlots? [b, pa, ps, ca, cz] }
  | _ => none

end FrameResults

namespace Sample

def toJson (s : Sample) : Json :=
  .record <| ("tas-frame", .ofNat s.frame.toNat) :: s.snapshot.counters.members ++
    s.snapshot.positionMembers ++ Json.markerMembers s.marker

def ofJson? (v : Json) : Option Sample := do
  match ← v.slots ("tas-frame" :: Counters.keys ++ Snapshot.positionKeys ++ ["marker"]) with
  | [frame, cells, money, buzzers, player, camera, marker] =>
    let marker ← match marker with
      | .beyond => some none
      | slot => slot.optional Json.string?
    return {
      frame := ← frame.required Json.word64?
      snapshot := ← Snapshot.ofSlots? cells money buzzers player camera
      marker }
  | _ => none

end Sample

namespace CounterSample

def toJson (s : CounterSample) : Json :=
  .record <| ("tas-frame", .ofNat s.frame.toNat) :: s.counters.members

def ofJson? (v : Json) : Option CounterSample := do
  match ← v.slots ("tas-frame" :: Counters.keys) with
  | frame :: counters =>
    return ⟨← frame.required Json.word64?, ← Counters.ofSlots? counters⟩
  | _ => none

end CounterSample

namespace ResultsLog

def toJson (log : ResultsLog) : Json :=
  .record [("all-data", .list (log.samples.map Sample.toJson)),
    ("collectable-frames", .list (log.counterSamples.map CounterSample.toJson))]

def ofJson? (v : Json) : Option ResultsLog := do
  match ← v.slots ["all-data", "collectable-frames"] with
  | [samples, counters] =>
    return ⟨← (← samples.required Json.list?).mapM Sample.ofJson?,
      ← (← counters.required Json.list?).mapM CounterSample.ofJson?⟩
  | _ => none

def text (log : ResultsLog) : String := log.toJson.pretty

end ResultsLog
end PadScript
