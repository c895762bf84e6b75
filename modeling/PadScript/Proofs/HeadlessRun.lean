import PadScript.Headless
import PadScript.Proofs.RunCourse
import PadScript.Storage.Memory

/-!
# A run without a game plays the loaded script

With a backend that reports on every frame it is given, a run plays the frames of the loaded script
up to the limit, in order, and leaves the engine at rest.
-/
namespace PadScript

namespace TriggerTexts

theorem resolveOne_ne_empty {trigger combo : String} {buttons : Buttons}
    (h : resolveOne trigger combo = .ok buttons) : buttons ≠ .empty := by
  unfold resolveOne at h
  split at h
  · cases h
  · split at h
    · cases h
    next hsome =>
      rintro rfl
      obtain rfl := Except.ok.inj h
      exact hsome rfl

theorem resolve_eq_ok {t : TriggerTexts} {triggers : Triggers} (h : t.resolve = .ok triggers) :
    resolveOne "start_playback" t.startPlayback = .ok triggers.startPlayback ∧
      resolveOne "cancel_playback" t.cancelPlayback = .ok triggers.cancelPlayback ∧
      resolveOne "start_recording" t.startRecording = .ok triggers.startRecording ∧
      resolveOne "stop_recording" t.stopRecording = .ok triggers.stopRecording := by
  unfold resolve at h
  cases hplay : resolveOne "start_playback" t.startPlayback with
  | error err => simp [hplay, bind, Except.bind] at h
  | ok play =>
  cases hcancel : resolveOne "cancel_playback" t.cancelPlayback with
  | error err => simp [hplay, hcancel, bind, Except.bind] at h
  | ok cancel =>
  cases hrecord : resolveOne "start_recording" t.startRecording with
  | error err => simp [hplay, hcancel, hrecord, bind, Except.bind] at h
  | ok record =>
  cases hstop : resolveOne "stop_recording" t.stopRecording with
  | error err => simp [hplay, hcancel, hrecord, hstop, bind, Except.bind] at h
  | ok stop =>
    simp only [hplay, hcancel, hrecord, hstop, bind, Except.bind, pure, Except.pure,
      Except.ok.injEq] at h
    rw [← h]
    exact ⟨rfl, rfl, rfl, rfl⟩

theorem cancelPlayback_ne_empty {t : TriggerTexts} {triggers : Triggers}
    (h : t.resolve = .ok triggers) : triggers.cancelPlayback ≠ .empty :=
  resolveOne_ne_empty (resolve_eq_ok h).2.1

end TriggerTexts

theorem Engine.make_eq_ok {σ : Type} {storage : σ} {config : Config} {fresh : Engine σ} :
    make storage config = .ok fresh ↔ config.triggers.resolve = .ok fresh.triggers ∧
      fresh = { config, triggers := fresh.triggers, storage } := by
  unfold make
  cases hresolve : config.triggers.resolve with
  | error err => simp [Except.map]
  | ok triggers =>
    constructor
    · intro h
      obtain rfl := Except.ok.inj h
      exact ⟨rfl, rfl⟩
    · rintro ⟨htriggers, hfresh⟩
      rw [hfresh, ← Except.ok.inj htriggers]
      rfl

/-- The settings of a segment are those of every frame in it, so that there is one frame for each
place in the expansion. -/
theorem InputFrame.IsFrame.unique {store : Store} {k : Nat} {f g : InputFrame}
    (hf : f.IsFrame store k) (hg : g.IsFrame store k) : f = g := by
  have hframe : f.frame = g.frame := UInt64.toNat_inj.mp (hf.frame.trans hg.frame.symm)
  have hinput : f.input = g.input := Option.some.inj (hf.input.symm.trans hg.input)
  have hrecording : f.recording = g.recording := hf.recording.trans hg.recording.symm
  obtain ⟨i, s, hi, hs, hrate, hskip, hmarker⟩ := hf.settings
  obtain ⟨j, t, hj, ht, hrate', hskip', hmarker'⟩ := hg.settings
  rw [hframe, hj] at hi
  obtain rfl := Option.some.inj hi
  obtain rfl := Option.some.inj (hs.symm.trans ht)
  cases f
  cases g
  simp_all

/-- The backend never fails, and reports on the frame that it is given. -/
def Backend.Reports {β : Type} (backend : Backend β) : Prop :=
  ∀ state frame, ∃ results next,
    backend.step state frame = (.ok results, next) ∧ results.frame = frame.frame

theorem Backend.echo_reports : echo.Reports :=
  fun state frame => ⟨.echo frame, state, rfl, rfl⟩

/-- These frames come one after the other out of a store, `count` frames having come before. -/
def Store.FramesFrom (store : Store) (count : Nat) (frames : List InputFrame) : Prop :=
  ∀ (k : Nat) (f : InputFrame), frames[k]? = some f → f.IsFrame store (count + k)

namespace Store.FramesFrom

variable {store : Store} {count : Nat} {frames : List InputFrame}

theorem nil (store : Store) (count : Nat) : store.FramesFrom count [] := by
  intro k f hf
  simp at hf

theorem cons {f : InputFrame} (hf : f.IsFrame store count)
    (h : store.FramesFrom (count + 1) frames) : store.FramesFrom count (f :: frames) := by
  intro k g hg
  cases k with
  | zero =>
    obtain rfl := Option.some.inj hg
    exact hf
  | succ k =>
    rw [List.getElem?_cons_succ] at hg
    have := h k g hg
    rwa [Nat.add_assoc, Nat.add_comm 1 k] at this

theorem unique (h : store.FramesFrom count frames) {others : List InputFrame}
    (hothers : store.FramesFrom count others) (hlength : frames.length = others.length) :
    frames = others := by
  refine List.ext_getElem hlength fun k hk hk' => ?_
  have hf := h k _ (List.getElem?_eq_getElem hk)
  exact hf.unique (hothers k _ (List.getElem?_eq_getElem hk'))

theorem numbers (h : store.FramesFrom count frames) :
    frames.map (fun f => f.frame.toNat) = List.range' (count + 1) frames.length := by
  refine List.ext_getElem (by simp) fun k hk hk' => ?_
  rw [List.getElem_map, List.getElem_range']
  rw [List.length_map] at hk
  have hf := h k _ (List.getElem?_eq_getElem hk)
  rw [hf.frame]
  omega

theorem inputs (h : store.FramesFrom count frames) :
    frames.map InputFrame.input = (store.expand.drop count).take frames.length := by
  refine List.ext_getElem? fun k => ?_
  by_cases hk : k < frames.length
  · have hf := h k _ (List.getElem?_eq_getElem hk)
    rw [List.getElem?_map, List.getElem?_eq_getElem hk, List.getElem?_take_of_lt hk,
      List.getElem?_drop, hf.input]
    rfl
  · rw [List.getElem?_eq_none (by simpa using hk), List.getElem?_eq_none]
    rw [List.length_take]
    omega

end Store.FramesFrom

namespace Engine

variable {σ : Type} {e : Engine σ} {store : Store} {count : Nat}

/-- What is left of an engine when its run has been closed: it plays nothing, and has set the rate;
settings and recorder are as they were. -/
structure Retired (e s : Engine σ) : Prop where
  playback : s.playback = {}
  recorder : s.recorder = e.recorder
  config : s.config = e.config
  triggers : s.triggers = e.triggers
  rate : s.clock.rate = e.config.rate

/-- The engines differ in the course of a run at most, and nothing has been written. -/
structure Alike (e s : Engine σ) : Prop where
  recorder : s.recorder = e.recorder
  config : s.config = e.config
  triggers : s.triggers = e.triggers
  storage : s.storage = e.storage

theorem Alike.trans {s t : Engine σ} (h : e.Alike s) (hnext : s.Alike t) : e.Alike t where
  recorder := hnext.recorder.trans h.recorder
  config := hnext.config.trans h.config
  triggers := hnext.triggers.trans h.triggers
  storage := hnext.storage.trans h.storage

theorem Retired.of_alike {s t : Engine σ} (h : s.Retired t) (halike : e.Alike s) : e.Retired t where
  playback := h.playback
  recorder := h.recorder.trans halike.recorder
  config := h.config.trans halike.config
  triggers := h.triggers.trans halike.triggers
  rate := h.rate.trans (congrArg Config.rate halike.config)

theorem Retired.inactive {s : Engine σ} (h : e.Retired s) : s.playback.isActive = false := by
  rw [h.playback]
  rfl

theorem Playing.isActive (h : e.Playing store count) : e.playback.isActive := by
  rw [Playback.isActive_iff]
  by_cases hcount : count < store.frameCount.toNat
  · rw [(h.cursor.running hcount).1]
    decide
  · rw [(h.cursor.completing (not_lt.mp hcount)).1]
    decide

theorem Playing.lt_of_not_ends (h : e.Playing store count) {live : Controller}
    (hends : ¬ e.Ends (.poll live)) : count < store.frameCount.toNat := by
  by_contra hle
  exact hends (.inl (h.cursor.completing (not_lt.mp hle)).1)

variable [Storage σ]

theorem retired_finalize (now : Moment) (e : Engine σ) : e.Retired (e.finalize now) := by
  rw [finalize_eq]
  exact ⟨rfl, rfl, rfl, rfl, rfl⟩

theorem Playing.poll (h : e.Playing store count) (hstore : store.IsPartition)
    (hlast : ∀ s ∈ store.segments, s.last.toNat < Frame.largest.toNat)
    (hcount : count < store.frameCount.toNat) (now : Moment) {live : Controller}
    (hedge : ¬ (live.buttons ≠ e.held ∧ live.buttons = e.triggers.cancelPlayback)) :
    (e.poll now live).1.IsFrame store count ∧ (e.poll now live).2.Playing store (count + 1) ∧
      e.Alike (e.poll now live).2 := by
  have hpoll := poll_of_running now (h.cursor.running hcount).1 h.quiet hedge
  obtain ⟨hframe, hplaying, -, -⟩ :=
    turn_playing (t := ⟨[], now, live⟩) hstore hlast h hcount hedge
  refine ⟨hframe, hplaying, ?_⟩
  rw [hpoll]
  exact ⟨rfl, rfl, rfl, rfl⟩

theorem Playing.submit (h : e.Playing store count) (hcount : count < store.frameCount.toNat)
    (now : Moment) (results : FrameResults) :
    ∃ tracker, e.submit now results = { e with tracker } ∧
      ({ e with tracker } : Engine σ).Playing store count := by
  obtain ⟨tracker, hsubmit⟩ := submit_of_running now results (h.cursor.running hcount).1
  exact ⟨tracker, hsubmit, h.quiet, h.cursor⟩

theorem retired_submit (now : Moment) {results : FrameResults} (hactive : e.playback.isActive)
    (hends : e.Ends (.submit results)) : e.Retired (e.submit now results) := by
  rw [submit_of_ends now hactive hends]
  exact (retired_finalize now _).of_alike ⟨rfl, rfl, rfl, rfl⟩

end Engine

namespace Headless

variable {σ β : Type} [Storage σ] {backend : Backend β} {store : Store} {count : Nat}

theorem playFrames_of_inactive (now : Moment) (left : Nat) {p : Progress σ β}
    (h : p.engine.playback.isActive = false) : playFrames now backend left p = (.ok (), p) := by
  rw [playFrames.eq_def]
  simp [h]

theorem playFrames_of_limit (now : Moment) {p : Progress σ β} (h : p.engine.playback.isActive) :
    playFrames now backend 0 p =
      (.ok (), { p with engine := p.engine.finalize now, truncated := true }) := by
  have hcancel : p.engine.cancelPlayback now = p.engine.finalize now := if_pos h
  rw [playFrames.eq_def]
  simp [h, hcancel]

theorem playFrames_of_idle_frame (now : Moment) (left : Nat) {p : Progress σ β}
    {frame : InputFrame} {engine : Engine σ} (h : p.engine.playback.isActive)
    (hpoll : p.engine.poll now {} = (frame, engine)) (hframe : frame.isActive = false) :
    playFrames now backend (left + 1) p = (.ok (), { p with engine }) := by
  rw [playFrames.eq_def]
  simp [h, hpoll, hframe]

theorem playFrames_of_error (now : Moment) (left : Nat) {p : Progress σ β}
    {frame : InputFrame} {engine : Engine σ} {cause : String} {state : β}
    (h : p.engine.playback.isActive) (hpoll : p.engine.poll now {} = (frame, engine))
    (hframe : frame.isActive) (hstep : backend.step p.backend frame = (.error cause, state)) :
    playFrames now backend (left + 1) p =
      (.error (.backend frame.frame cause), { p with engine, backend := state }) := by
  rw [playFrames.eq_def]
  simp [h, hpoll, hframe, hstep]

theorem playFrames_of_results (now : Moment) (left : Nat) {p : Progress σ β}
    {frame : InputFrame} {engine : Engine σ} {results : FrameResults} {state : β}
    (h : p.engine.playback.isActive) (hpoll : p.engine.poll now {} = (frame, engine))
    (hframe : frame.isActive) (hstep : backend.step p.backend frame = (.ok results, state)) :
    playFrames now backend (left + 1) p = playFrames now backend left { p with
      engine := engine.submit now results, backend := state, played := frame :: p.played } := by
  rw [playFrames.eq_def]
  simp [h, hpoll, hframe, hstep]

/-- With frames left in the script, the loop plays them up to the limit, and cancels the run if
there are more. -/
theorem playFrames_of_playing (now : Moment) (hbackend : backend.Reports)
    (hstore : store.IsPartition)
    (hlast : ∀ s ∈ store.segments, s.last.toNat < Frame.largest.toNat) (left : Nat)
    {p : Progress σ β} (h : p.engine.Playing store count) (hcount : count < store.frameCount.toNat)
    (htrigger : p.engine.triggers.cancelPlayback ≠ .empty) (huncut : p.truncated = false) :
    ∃ q frames, playFrames now backend left p = (.ok (), q) ∧
      q.played = frames.reverse ++ p.played ∧
      frames.length = min left (store.frameCount.toNat - count) ∧
      store.FramesFrom count frames ∧
      (q.truncated ↔ left < store.frameCount.toNat - count) ∧ p.engine.Retired q.engine := by
  have hactive := h.isActive
  -- a frame less is left after each pass, and one more has been played
  induction left generalizing p count with
  | zero =>
    exact ⟨_, [], playFrames_of_limit now hactive, rfl, by simp, .nil _ _, by simp [hcount],
      Engine.retired_finalize now _⟩
  | succ left ih =>
    have hedge : ¬ ((({} : Controller).buttons ≠ p.engine.held) ∧
        ({} : Controller).buttons = p.engine.triggers.cancelPlayback) :=
      fun hedge => htrigger hedge.2.symm
    obtain ⟨hframe, hplaying, halike⟩ := h.poll hstore hlast hcount now hedge
    cases hpoll : p.engine.poll now {} with
    | mk frame engine =>
    rw [hpoll] at hframe hplaying halike
    dsimp only at hframe hplaying halike
    obtain ⟨results, state, hstep, hresults⟩ := hbackend p.backend frame
    have hnonzero : results.frame ≠ 0 := by
      have hplace := hframe.frame
      intro hzero
      rw [← hresults, hzero, UInt64.toNat_zero] at hplace
      omega
    rw [playFrames_of_results now left hactive hpoll hframe.active hstep]
    by_cases hmore : count + 1 < store.frameCount.toNat
    · -- the run goes on with the next frame
      obtain ⟨tracker, hsubmit, hnext⟩ := hplaying.submit hmore now results
      rw [hsubmit]
      obtain ⟨q, frames, hq, hplayed, hlength, hframes, htruncated, hretired⟩ := ih
        (p := { p with
          engine := { engine with tracker }, backend := state, played := frame :: p.played })
        hnext hmore (by rwa [halike.triggers]) huncut hnext.isActive
      refine ⟨q, frame :: frames, hq, ?_, ?_, .cons hframe hframes, ?_, ?_⟩
      · rw [hplayed]
        simp
      · rw [List.length_cons, hlength]
        omega
      · rw [htruncated]
        omega
      · have hretired : engine.Retired q.engine := hretired.of_alike ⟨rfl, rfl, rfl, rfl⟩
        exact hretired.of_alike halike
    · -- the report on the last frame closes the run
      have hcompleting := (hplaying.cursor.completing (not_lt.mp hmore)).1
      have hretired := Engine.retired_submit now hplaying.isActive ⟨hcompleting, hnonzero⟩
      refine ⟨{ p with
        engine := engine.submit now results, backend := state, played := frame :: p.played },
        [frame], playFrames_of_inactive now left hretired.inactive, rfl, ?_, ?_, ?_,
        hretired.of_alike halike⟩
      · rw [List.length_singleton]
        omega
      · exact .cons hframe (.nil _ _)
      · rw [huncut]
        simp only [Bool.false_eq_true, false_iff]
        omega

/-- The summary of a run that plays a loaded script up to the limit: its trace, if it is asked for,
holds the frames played. -/
structure Summary.Tells (loaded : Script.Loaded) (options : Options) (rate : UInt32)
    (s : Summary) : Prop where
  framesPlayed : s.framesPlayed = min loaded.store.frameCount.toNat options.maxFrames.toNat
  totalFrames : s.totalFrames = loaded.store.frameCount
  segments : s.segments = loaded.store.size
  diagnostics : s.diagnostics = loaded.diagnostics.length
  truncated : s.truncated ↔ options.maxFrames < loaded.store.frameCount
  finalRate : s.finalRate = rate
  traced : options.captureTrace →
    s.trace.length = s.framesPlayed ∧ loaded.store.FramesFrom 0 s.trace
  untraced : options.captureTrace = false → s.trace = []

theorem Summary.Tells.unique {loaded : Script.Loaded} {options : Options} {rate : UInt32}
    {s t : Summary} (hs : s.Tells loaded options rate) (ht : t.Tells loaded options rate) :
    s = t := by
  have hplayed : s.framesPlayed = t.framesPlayed := hs.framesPlayed.trans ht.framesPlayed.symm
  have htotal : s.totalFrames = t.totalFrames := hs.totalFrames.trans ht.totalFrames.symm
  have hsegments : s.segments = t.segments := hs.segments.trans ht.segments.symm
  have hdiagnostics : s.diagnostics = t.diagnostics := hs.diagnostics.trans ht.diagnostics.symm
  have htruncated : s.truncated = t.truncated :=
    Bool.eq_iff_iff.mpr (hs.truncated.trans ht.truncated.symm)
  have hrate : s.finalRate = t.finalRate := hs.finalRate.trans ht.finalRate.symm
  have htrace : s.trace = t.trace := by
    cases htraced : options.captureTrace with
    | true =>
      obtain ⟨hlength, hframes⟩ := hs.traced htraced
      obtain ⟨hlength', hframes'⟩ := ht.traced htraced
      exact hframes.unique hframes' (by rw [hlength, hlength', hplayed])
    | false => rw [hs.untraced htraced, ht.untraced htraced]
  cases s
  cases t
  simp_all

theorem frameCount_pos {store : Store} (hstore : store.IsPartition)
    (hfull : store.isEmpty = false) : 0 < store.frameCount.toNat := by
  have hne : store.segments ≠ [] := by simpa [Store.isEmpty] using hfull
  have hsize : 0 < store.size := List.length_pos_of_ne_nil hne
  exact hsize.trans_le hstore.size_le_frameCount

theorem run_of_start (now : Moment) (options : Options) (state : β) {e s : Engine σ}
    {start : PlaybackStart} {outcome : Except RunError Unit} {p : Progress σ β}
    (hstart : e.startPlayback now = (.ok start, s))
    (hplay : playFrames now backend options.maxFrames.toNat ⟨s, state, [], false⟩ =
      (outcome, p)) :
    run now options backend state e = (outcome.map fun _ => {
        framesPlayed := p.played.length
        totalFrames := s.playback.store.frameCount
        segments := s.playback.store.size
        diagnostics := s.diagnostics.length
        truncated := p.truncated
        finalRate := p.engine.clock.rate
        trace := if options.captureTrace then p.played.reverse else [] },
      p.engine, p.backend) := by
  rw [run, hstart]
  simp only [hplay]

theorem eq_empty_of_isEmpty {store : Store} (h : store.isEmpty) : store = .empty := by
  have hsegments : store.segments = [] := by simpa [Store.isEmpty] using h
  cases store
  exact congrArg Store.mk hsegments

theorem exists_loop_of_load (now : Moment) (limit : Nat) (hbackend : backend.Reports) (state : β)
    {e : Engine σ} {loaded : Script.Loaded} (hidle : e.playback.phase = .idle)
    (hquiet : e.recorder.recording = false) (htrigger : e.triggers.cancelPlayback ≠ .empty)
    (hload : Script.load e.config.loading e.library e.config.mainScript = .ok loaded) :
    ∃ start s q frames, e.startPlayback now = (.ok start, s) ∧
      s.playback.store = loaded.store ∧ s.diagnostics = loaded.diagnostics ∧
      playFrames now backend limit ⟨s, state, [], false⟩ = (.ok (), q) ∧
      q.played = frames.reverse ∧ frames.length = min limit loaded.store.frameCount.toNat ∧
      loaded.store.FramesFrom 0 frames ∧
      (q.truncated ↔ limit < loaded.store.frameCount.toNat) ∧ e.Retired q.engine := by
  cases hfull : loaded.store.isEmpty with
  | true =>
    have hstart := Engine.startPlayback_of_empty now hidle hquiet hload hfull
    have hretired : e.Retired ((e.begin loaded).finalize now) :=
      (Engine.retired_finalize now _).of_alike ⟨rfl, rfl, rfl, rfl⟩
    have hstore : loaded.store = .empty := eq_empty_of_isEmpty hfull
    have hcount : loaded.store.frameCount.toNat = 0 := by
      rw [hstore]
      rfl
    refine ⟨_, _, _, [], hstart, ?_, ?_, playFrames_of_inactive now limit hretired.inactive, rfl,
      ?_, .nil _ _, ?_, hretired⟩
    · rw [hretired.playback, hstore]
    · rw [Engine.finalize_eq]
      rfl
    · rw [hcount, Nat.min_zero]
      rfl
    · simp [hcount]
  | false =>
    have hstart : e.startPlayback now = (.ok .started, e.begin loaded) :=
      Engine.startPlayback_of_idle now hidle hquiet hload hfull
    have hstore := Script.isPartition_load hload
    have hlast : ∀ s ∈ loaded.store.segments, s.last.toNat < Frame.largest.toNat :=
      fun s hs => Script.last_lt_of_load hload hs
    have hcursor := Playback.start_at hstore hfull
    have hbegun : (e.begin loaded).Playing loaded.store 0 := ⟨hquiet, hcursor⟩
    obtain ⟨q, frames, hq, hplayed, hlength, hframes, htruncated, hretired⟩ :=
      playFrames_of_playing now hbackend hstore hlast limit
        (p := ⟨e.begin loaded, state, [], false⟩) hbegun (frameCount_pos hstore hfull) htrigger rfl
    rw [List.append_nil] at hplayed
    exact ⟨_, _, q, frames, hstart, hcursor.plays, rfl, hq, hplayed, hlength, hframes, htruncated,
      hretired.of_alike ⟨rfl, rfl, rfl, rfl⟩⟩

/-- Played from rest, a loaded script is summed up as it was loaded. -/
theorem run_tells (now : Moment) (options : Options) (hbackend : backend.Reports) (state : β)
    {e : Engine σ} {loaded : Script.Loaded} (hidle : e.playback.phase = .idle)
    (hquiet : e.recorder.recording = false) (htrigger : e.triggers.cancelPlayback ≠ .empty)
    (hload : Script.load e.config.loading e.library e.config.mainScript = .ok loaded) :
    ∃ summary s next, run now options backend state e = (.ok summary, s, next) ∧
      summary.Tells loaded options e.config.rate ∧ e.Retired s := by
  obtain ⟨start, s, q, frames, hstart, hstore, hdiagnostics, hq, hplayed, hlength, hframes,
    htruncated, hretired⟩ :=
      exists_loop_of_load now options.maxFrames.toNat hbackend state hidle hquiet htrigger hload
  refine ⟨_, _, _, run_of_start now options state hstart hq, ?_, hretired⟩
  refine ⟨?_, congrArg Store.frameCount hstore, congrArg Store.size hstore,
    congrArg List.length hdiagnostics, ?_, hretired.rate, fun htraced => ?_, fun huntraced => ?_⟩
  · dsimp only
    rw [hplayed, List.length_reverse, hlength, Nat.min_comm]
  · rw [htruncated, UInt64.lt_iff_toNat_lt]
  · dsimp only
    rw [htraced, if_pos rfl, hplayed, List.reverse_reverse, List.length_reverse]
    exact ⟨rfl, hframes⟩
  · dsimp only
    rw [huntraced, if_neg Bool.false_ne_true]

/-- An engine at rest whose main script loads plays it, up to the limit, to any backend that reports
on every frame. The trace has the frames from the first one on, with the inputs of the expansion.
The engine is then at rest again, and as long as its storage holds the same scripts, another run
has the same summary. -/
theorem run_plays_script (now : Moment) (options : Options) (backend : Backend β) (state : β)
    (e : Engine σ) (loaded : Script.Loaded) (hbackend : backend.Reports)
    (htriggers : e.config.triggers.resolve = .ok e.triggers) (hidle : e.playback.phase = .idle)
    (hquiet : e.recorder.recording = false)
    (hload : Script.load e.config.loading e.library e.config.mainScript = .ok loaded) :
    ∃ summary s next, run now options backend state e = (.ok summary, s, next) ∧
      summary.Tells loaded options e.config.rate ∧
      (options.captureTrace →
        summary.trace.map (fun f => f.frame.toNat) = List.range' 1 summary.framesPlayed ∧
        summary.trace.map InputFrame.input = loaded.store.expand.take summary.framesPlayed) ∧
      s.playback.phase = .idle ∧ s.recorder.recording = false ∧
      ∀ (later : Moment) (again : Backend β) (state' : β) (storage : σ), again.Reports →
        Storage.read storage = e.library →
        (run later options again state' { s with storage }).1 = .ok summary := by
  have htrigger := TriggerTexts.cancelPlayback_ne_empty htriggers
  obtain ⟨summary, s, next, hrun, htells, hretired⟩ :=
    run_tells now options hbackend state hidle hquiet htrigger hload
  have hphase : s.playback.phase = .idle := by
    rw [hretired.playback]
  have hrests : s.recorder.recording = false := by rw [hretired.recorder, hquiet]
  refine ⟨summary, s, next, hrun, htells, fun htraced => ?_, hphase, hrests,
    fun later again state' storage hagain hstorage => ?_⟩
  · obtain ⟨hlength, hframes⟩ := htells.traced htraced
    rw [← hlength]
    exact ⟨hframes.numbers, hframes.inputs⟩
  · have hreload : Script.load s.config.loading ({ s with storage } : Engine σ).library
        s.config.mainScript = .ok loaded := by
      rw [hretired.config]
      show Script.load e.config.loading (Storage.read storage) e.config.mainScript = _
      rw [hstorage, hload]
    obtain ⟨summary', s', next', hrun', htells', -⟩ :=
      run_tells (e := { s with storage }) later options hagain state' hphase hrests
        (hretired.triggers ▸ htrigger) hreload
    have htells' : summary'.Tells loaded options e.config.rate := hretired.config ▸ htells'
    rw [hrun', htells.unique htells']

/-- Two of three frames are played up to the limit, and two again in a second run. -/
theorem run_plays_script_of_limit :
    let e : Engine MemoryStorage :=
      { config := {}, triggers := {}, storage := ⟨[("main", "2,X\n1,Up")], []⟩ }
    let options : Options := { maxFrames := 2, captureTrace := true }
    let now : Moment := ⟨"0", ""⟩
    ∃ summary s, run now options .echo () e = (.ok summary, s, ()) ∧
      summary.framesPlayed = 2 ∧ summary.totalFrames = 3 ∧ summary.truncated ∧
      summary.trace.map (fun f => f.frame.toNat) = [1, 2] ∧
      summary.trace.map InputFrame.input = [⟨.ofButton .x, {}⟩, ⟨.ofButton .x, {}⟩] ∧
      s.playback.phase = .idle ∧ (run now options .echo () s).1 = .ok summary := by
  intro e options now
  have hview : (Script.load e.config.loading e.library e.config.mainScript).toOption.map
      (fun loaded => (loaded.store.frameCount, loaded.store.expand.take 2)) =
          some (3, [⟨.ofButton .x, {}⟩, ⟨.ofButton .x, {}⟩]) := by
    decide +kernel
  obtain ⟨loaded, hload, hloaded⟩ := Script.load_of_view hview
  obtain ⟨hcount, hinputs⟩ := Prod.mk.inj hloaded
  have htriggers : e.config.triggers.resolve = .ok e.triggers := by decide +kernel
  obtain ⟨summary, s, next, hrun, htells, htrace, hidle, -, hagain⟩ :=
    run_plays_script now options .echo () e loaded Backend.echo_reports htriggers rfl rfl hload
  have hplayed : summary.framesPlayed = 2 := by
    rw [htells.framesPlayed, hcount]
    rfl
  have htotal : summary.totalFrames = 3 := htells.totalFrames.trans hcount
  have htruncated : summary.truncated := by
    rw [htells.truncated, hcount]
    decide
  obtain ⟨hnumbers, hplayedInputs⟩ := htrace rfl
  rw [hplayed] at hnumbers hplayedInputs
  have hstorage : (run now options .echo () e).2.1.storage = e.storage := by decide +kernel
  rw [hrun] at hstorage
  have hscripts : Storage.read s.storage = e.library := congrArg Storage.read hstorage
  exact ⟨summary, s, hrun, hplayed, htotal, htruncated, hnumbers, hplayedInputs.trans hinputs,
    hidle, hagain now .echo () s.storage Backend.echo_reports hscripts⟩

end Headless
end PadScript
