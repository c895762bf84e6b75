import PadScript.Cli.Execute
import PadScript.Proofs.Controller
import PadScript.Proofs.JsonNumbers
import PadScript.Proofs.JsonRecords

/-!
# Traces are read as lists of controllers

An input frame has all the fields of a controller among its own. So a trace of finite axes is read
as the controllers of its frames.
-/
namespace PadScript

theorem Buttons.ofJson?_toJson (b : Buttons) : ofJson? b.toJson = some b := by
  have hmask : b.toJson.natural? UInt16.size = some b.mask.toNat :=
    Json.natural?_ofNat b.mask.toNat_lt
  simp [ofJson?, Json.word16?, hmask]

namespace InputFrame

theorem proper_toJson (f : InputFrame) : Json.Proper f.toJson.tokens := by
  have hfields : ∀ m ∈ [("tas_frame", Json.ofNat f.frame.toNat),
      ("frame_rate", .ofNat f.rate.toNat), ("skip_spool_movies", .bool f.skipMovies),
      ("is_recording_input", .bool f.recording)], Json.Proper m.2.tokens := by
    simp [Json.proper_ofNat, Json.proper_bool]
  have hinput : ∀ m ∈ f.input.members, Json.Proper m.2.tokens := by
    simp [Controller.members, Buttons.toJson, Axes.members, Json.proper_ofNat, Json.proper_ofSingle]
  have hmarker : ∀ m ∈ Json.markerMembers f.marker, Json.Proper m.2.tokens := by
    cases f.marker <;> simp [Json.markerMembers, Json.proper_ofString]
  exact Json.proper_record (List.forall_mem_append.mpr
    ⟨List.forall_mem_append.mpr ⟨hfields, hinput⟩, hmarker⟩)

theorem controller_ofJson?_toJson (f : InputFrame) (h : ∀ a, (f.input.axes.get a).isFinite) :
    Controller.ofJson? f.toJson = some f.input := by
  have hslots : f.toJson.slots Controller.keys =
      some [.given f.input.buttons.toJson, .given (.ofSingle f.input.axes.playerAngle),
        .given (.ofSingle f.input.axes.playerSpeed), .given (.ofSingle f.input.axes.cameraAngle),
        .given (.ofSingle f.input.axes.cameraZoom)] := by
    rw [toJson, Json.slots_record]
    cases f.marker <;>
      simp [Controller.keys, Controller.members, Axes.members, Json.markerMembers, Json.slotOf]
  have hangle := Json.single?_ofSingle (h .playerAngle)
  have hspeed := Json.single?_ofSingle (h .playerSpeed)
  have hcamera := Json.single?_ofSingle (h .cameraAngle)
  have hzoom := Json.single?_ofSingle (h .cameraZoom)
  simp only [Axes.get] at hangle hspeed hcamera hzoom
  rw [Controller.ofJson?, hslots]
  simp [Controller.ofSlots?, Json.Slot.orElse, Buttons.ofJson?_toJson, hangle, hspeed, hcamera,
    hzoom]

end InputFrame

/-- A trace is read as the controllers of its frames. -/
theorem Controller.trace?_traceText {frames : List InputFrame}
    (h : ∀ f ∈ frames, ∀ a, (f.input.axes.get a).isFinite) :
    trace? (Cli.traceText frames) = some (frames.map InputFrame.input) := by
  have hproper : Json.Proper (Json.list (frames.map InputFrame.toJson)).tokens := by
    refine Json.proper_list fun v hv => ?_
    obtain ⟨f, -, rfl⟩ := List.mem_map.mp hv
    exact f.proper_toJson
  have hread : (frames.map InputFrame.toJson).mapM ofJson? =
      some (frames.map InputFrame.input) :=
    Json.mapM_map_eq_some fun f hf => f.controller_ofJson?_toJson (h f hf)
  simp [trace?, Cli.traceText, Json.parse_pretty hproper, Json.list?, hread]

end PadScript
