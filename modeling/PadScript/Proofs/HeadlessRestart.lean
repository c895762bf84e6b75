import PadScript.Proofs.HeadlessRun

/-!
# Runs after a run that failed

A run that its backend breaks off is not closed. The next call of the runner goes on with it, from
the frame after the one that failed; after any other outcome the next call begins with the first
frame.
-/
namespace PadScript

def Backend.noting {β : Type} (backend : Backend β) : Backend (β × List InputFrame) :=
  ⟨fun (state, notes) frame =>
    let (answer, next) := backend.step state frame
    (answer, next, notes ++ [frame])⟩

def Backend.failingAt (frame : Frame) : Backend Unit :=
  ⟨fun state f => if f.frame = frame then (.error "crashed", state) else (.ok (.echo f), state)⟩

namespace Engine

variable {σ : Type} {e : Engine σ} {store : Store} {count : Nat}

/-- A run of `store` is going on, of which `count` frames have been handed out, and the clock runs
at the rate of the last of them. -/
structure Midway (store : Store) (count : Nat) (e : Engine σ) : Prop where
  partition : store.IsPartition
  below : ∀ s ∈ store.segments, s.last.toNat < Frame.largest.toNat
  playing : e.Playing store count
  timed : ∀ s ∈ store.segments, s.first.toNat ≤ count → count ≤ s.last.toNat →
    e.clock.rate = s.rate

theorem Midway.tracked (h : e.Midway store count) (tracker : Tracker) :
    ({ e with tracker } : Engine σ).Midway store count :=
  ⟨h.partition, h.below, ⟨h.playing.quiet, h.playing.cursor⟩, h.timed⟩

theorem Midway.begin {loaded : Script.Loaded} (hquiet : e.recorder.recording = false)
    (hstore : loaded.store.IsPartition)
    (hlast : ∀ s ∈ loaded.store.segments, s.last.toNat < Frame.largest.toNat)
    (hfull : loaded.store.isEmpty = false) : (e.begin loaded).Midway loaded.store 0 := by
  refine ⟨hstore, hlast, ⟨hquiet, Playback.start_at hstore hfull⟩, fun s hs hfirst => ?_⟩
  have hpositive := Partition.From.next_le hstore hs
  omega

theorem Midway.rate_tick (h : e.Midway store count) (hcount : count < store.frameCount.toNat) :
    ∀ s ∈ store.segments, s.first.toNat ≤ count + 1 → count + 1 ≤ s.last.toNat →
      (e.playback.tick e.clock).2.2.rate = s.rate := by
  obtain ⟨hphase, s, hs, hc⟩ := h.playing.cursor.running hcount
  have hplace : e.playback.frame.toNat = count + 1 := h.playing.cursor.frame
  intro t ht hfirst hlast
  -- the segment of the cursor is the only one that covers the frame
  have hcovers : t.contains e.playback.frame := Playback.contains_iff.mpr (by omega)
  obtain rfl : s = t := h.partition.eq_of_contains (List.mem_of_getElem? hs) hc ht hcovers
  rw [h.playing.cursor.tick_eq hphase hs]
  unfold Playback.retime
  by_cases hstart : e.playback.frame = s.first
  · by_cases hrate : e.clock.rate = s.rate
    · simp [hrate]
    · simp [hstart, hrate, FrameClock.set]
  · have hne : e.playback.frame.toNat ≠ s.first.toNat := mt UInt64.toNat_inj.mp hstart
    rw [if_neg fun hset => hstart hset.1]
    exact h.timed s (List.mem_of_getElem? hs) (by omega) (by omega)

variable [Storage σ]

theorem Midway.poll (h : e.Midway store count) (now : Moment) {live : Controller}
    (hends : ¬ e.Ends (.poll live)) :
    (e.poll now live).1.IsFrame store count ∧ (e.poll now live).2.Midway store (count + 1) ∧
      e.Alike (e.poll now live).2 ∧ (e.poll now live).2.clock.rate = (e.poll now live).1.rate := by
  have hcount := h.playing.lt_of_not_ends hends
  have hedge : ¬ (live.buttons ≠ e.held ∧ live.buttons = e.triggers.cancelPlayback) :=
    fun hedge => hends (.inr hedge)
  obtain ⟨hframe, hplaying, halike⟩ := h.playing.poll h.partition h.below hcount now hedge
  have hclock : (e.poll now live).2.clock = (e.playback.tick e.clock).2.2 := by
    rw [poll_of_running now (h.playing.cursor.running hcount).1 h.playing.quiet hedge]
    rfl
  have htimed := h.rate_tick hcount
  rw [← hclock] at htimed
  refine ⟨hframe, ⟨h.partition, h.below, hplaying, htimed⟩, halike, ?_⟩
  obtain ⟨i, s, hindex, hs, hrate, -, -⟩ := hframe.settings
  obtain ⟨t, ht, hc⟩ := Store.contains_of_indexAt? hindex
  obtain rfl := Option.some.inj (hs.symm.trans ht)
  obtain ⟨hfirst, hlast⟩ := Playback.contains_iff.mp hc
  rw [hframe.frame] at hfirst hlast
  rw [hrate]
  exact htimed s (List.mem_of_getElem? hs) hfirst hlast

theorem exists_tracker_of_not_ends (now : Moment) {results : FrameResults}
    (hactive : e.playback.isActive) (hends : ¬ e.Ends (.submit results)) :
    ∃ tracker, e.submit now results = { e with tracker } := by
  rw [submit_of_not_ends now hactive hends]
  split
  · exact ⟨e.tracker, rfl⟩
  · exact ⟨_, rfl⟩

/-- The run was broken off on this frame, with nothing written. -/
structure BrokenOff (store : Store) (f : InputFrame) (e s : Engine σ) : Prop where
  midway : s.Midway store f.frame.toNat
  alike : e.Alike s
  rate : s.clock.rate = f.rate

end Engine

namespace Headless

variable {σ β : Type} {store : Store} {count : Nat}

/-- What can be said of an engine between calls: it is at rest, or in the middle of a run. -/
def Between (left : Nat) (e : Engine σ) : Prop :=
  (left = 0 ∧ e.playback.phase = .idle ∧ e.recorder.recording = false) ∨
    0 < left ∧ ∃ store, e.Midway store left

theorem between_of_retired {e s : Engine σ} (hquiet : e.recorder.recording = false)
    (h : e.Retired s) : Between 0 s := by
  refine .inl ⟨rfl, ?_, ?_⟩
  · rw [h.playback]
  · rw [h.recorder, hquiet]

/-- How a loop may end that was given these frames of `store`, after `count` frames of it. -/
inductive Ending (store : Store) (count : Nat) (p q : Progress σ β) :
    List InputFrame → Except RunError Unit → Prop
  | closed {frames : List InputFrame} (hframes : store.FramesFrom count frames)
      (hplayed : q.played = frames.reverse ++ p.played) (hretired : p.engine.Retired q.engine) :
      Ending store count p q frames (.ok ())
  | broken (before : List InputFrame) (f : InputFrame) (cause : String)
      (hframes : store.FramesFrom count (before ++ [f]))
      (hbroken : p.engine.BrokenOff store f q.engine) :
      Ending store count p q (before ++ [f]) (.error (.backend f.frame cause))

theorem Ending.of_alike {p r q : Progress σ β} {frames : List InputFrame}
    {outcome : Except RunError Unit} (h : Ending store count r q frames outcome)
    (halike : p.engine.Alike r.engine) (hplayed : r.played = p.played) :
    Ending store count p q frames outcome := by
  cases h with
  | closed hframes hrest hretired =>
    exact .closed hframes (hplayed ▸ hrest) (hretired.of_alike halike)
  | broken before f cause hframes hbroken =>
    exact .broken before f cause hframes ⟨hbroken.midway, halike.trans hbroken.alike, hbroken.rate⟩

theorem Ending.cons {p q : Progress σ β} {f : InputFrame} {frames : List InputFrame}
    {outcome : Except RunError Unit} (hf : f.IsFrame store count)
    (h : Ending store (count + 1) { p with played := f :: p.played } q frames outcome) :
    Ending store count p q (f :: frames) outcome := by
  cases h with
  | closed hframes hplayed hretired =>
    refine .closed (.cons hf hframes) ?_ hretired
    rw [hplayed]
    simp
  | broken before last cause hframes hbroken =>
    exact .broken (f :: before) last cause (.cons hf hframes) hbroken

variable [Storage σ]

/-- In the middle of a run, the loop gives the backend the next frames until it ends. -/
theorem playFrames_noting (backend : Backend β) (now : Moment) (left : Nat)
    {p : Progress σ (β × List InputFrame)} (h : p.engine.Midway store count) :
    ∃ frames outcome q, playFrames now backend.noting left p = (outcome, q) ∧
      q.backend.2 = p.backend.2 ++ frames ∧ Ending store count p q frames outcome := by
  have hactive := h.playing.isActive
  -- one frame more has been handed out after each pass
  induction left generalizing p count with
  | zero =>
    have hretired := Engine.retired_finalize now p.engine
    exact ⟨[], .ok (), _, playFrames_of_limit now hactive, by simp, .closed (.nil _ _) rfl hretired⟩
  | succ left ih =>
    cases hpoll : p.engine.poll now {} with
    | mk frame engine =>
    by_cases hends : p.engine.Ends (.poll {})
    · have hclosed := Engine.poll_of_ends now hactive h.playing.quiet hends
      rw [hpoll] at hclosed
      obtain ⟨rfl, rfl⟩ := Prod.mk.inj hclosed
      have hretired := (Engine.retired_finalize now _).of_alike (e := p.engine)
        (s := { p.engine with held := .empty }) ⟨rfl, rfl, rfl, rfl⟩
      exact ⟨[], .ok (), _, playFrames_of_idle_frame now left hactive hpoll rfl, by simp,
        .closed (.nil _ _) rfl hretired⟩
    obtain ⟨hframe, hmidway, halike, hrate⟩ := h.poll now hends
    rw [hpoll] at hframe hmidway halike hrate
    dsimp only at hframe hmidway halike hrate
    cases hstep : backend.step p.backend.1 frame with
    | mk answer state =>
    have hnoted : backend.noting.step p.backend frame =
        (answer, state, p.backend.2 ++ [frame]) := by
      simp [Backend.noting, hstep]
    cases answer with
    | error cause =>
      have hplace : frame.frame.toNat = count + 1 := hframe.frame
      refine ⟨[frame], _, _, playFrames_of_error now left hactive hpoll hframe.active hnoted, rfl,
        .broken [] frame cause (.cons hframe (.nil _ _)) ⟨?_, halike, hrate⟩⟩
      rw [hplace]
      exact hmidway
    | ok results =>
      rw [playFrames_of_results now left hactive hpoll hframe.active hnoted]
      by_cases hsubmit : engine.Ends (.submit results)
      · have hretired := Engine.retired_submit now hmidway.playing.isActive hsubmit
        exact ⟨[frame], .ok (), _, playFrames_of_inactive now left hretired.inactive, rfl,
          .closed (.cons hframe (.nil _ _)) rfl (hretired.of_alike halike)⟩
      · obtain ⟨tracker, htracker⟩ :=
          Engine.exists_tracker_of_not_ends now hmidway.playing.isActive hsubmit
        rw [htracker]
        have hnext := hmidway.tracked tracker
        obtain ⟨frames, outcome, q, hq, hnotes, hending⟩ := ih
          (p := { p with
            engine := { engine with tracker }, backend := (state, p.backend.2 ++ [frame])
            played := frame :: p.played }) hnext hnext.playing.isActive
        refine ⟨frame :: frames, outcome, q, hq, ?_, .cons hframe (hending.of_alike ?_ rfl)⟩
        · rw [hnotes, List.append_assoc]
          rfl
        · exact halike.trans ⟨rfl, rfl, rfl, rfl⟩

def Progress.noted (notes : List InputFrame) (p : Progress σ β) :
    Progress σ (β × List InputFrame) :=
  ⟨p.engine, (p.backend, notes), p.played, p.truncated⟩

theorem playFrames_noted (backend : Backend β) (now : Moment) (left : Nat) (p : Progress σ β)
    (notes : List InputFrame) :
    ∃ notes', playFrames now backend.noting left (p.noted notes) =
      ((playFrames now backend left p).1, (playFrames now backend left p).2.noted notes') := by
  induction left generalizing p notes with
  | zero =>
    by_cases hactive : p.engine.playback.isActive
    · rw [playFrames_of_limit now hactive, playFrames_of_limit (p := p.noted notes) now hactive]
      exact ⟨notes, rfl⟩
    · rw [Bool.not_eq_true] at hactive
      rw [playFrames_of_inactive now 0 hactive,
        playFrames_of_inactive (p := p.noted notes) now 0 hactive]
      exact ⟨notes, rfl⟩
  | succ left ih =>
    by_cases hactive : p.engine.playback.isActive
    · cases hpoll : p.engine.poll now {} with
      | mk frame engine =>
      by_cases hframe : frame.isActive
      · cases hstep : backend.step p.backend frame with
        | mk answer state =>
        have hnoted : backend.noting.step (p.noted notes).backend frame =
            (answer, state, notes ++ [frame]) := by
          simp [Backend.noting, Progress.noted, hstep]
        cases answer with
        | error cause =>
          rw [playFrames_of_error now left hactive hpoll hframe hstep,
            playFrames_of_error (p := p.noted notes) now left hactive hpoll hframe hnoted]
          exact ⟨_, rfl⟩
        | ok results =>
          rw [playFrames_of_results now left hactive hpoll hframe hstep,
            playFrames_of_results (p := p.noted notes) now left hactive hpoll hframe hnoted]
          exact ih { p with
            engine := engine.submit now results, backend := state, played := frame :: p.played } _
      · rw [Bool.not_eq_true] at hframe
        rw [playFrames_of_idle_frame now left hactive hpoll hframe,
          playFrames_of_idle_frame (p := p.noted notes) now left hactive hpoll hframe]
        exact ⟨notes, rfl⟩
    · rw [Bool.not_eq_true] at hactive
      rw [playFrames_of_inactive now (left + 1) hactive,
        playFrames_of_inactive (p := p.noted notes) now (left + 1) hactive]
      exact ⟨notes, rfl⟩

theorem run_noted (now : Moment) (options : Options) (backend : Backend β) (state : β)
    (e : Engine σ) (notes : List InputFrame) :
    ∃ notes', run now options backend.noting (state, notes) e =
      ((run now options backend state e).1, (run now options backend state e).2.1,
        (run now options backend state e).2.2, notes') := by
  cases hstart : e.startPlayback now with
  | mk start s =>
  cases start with
  | error err =>
    simp only [run, hstart]
    exact ⟨notes, rfl⟩
  | ok start =>
    obtain ⟨notes', hnoted⟩ :=
      playFrames_noted backend now options.maxFrames.toNat ⟨s, state, [], false⟩ notes
    rw [run_of_start now options state hstart rfl,
      run_of_start now options (state, notes) hstart hnoted]
    exact ⟨notes', rfl⟩

structure Call (β : Type) where
  now : Moment := ⟨"0", ""⟩
  options : Options := {}
  backend : Backend β
  state : β

/-- How many frames have been handed out of a run that the outcome has left unfinished. -/
def unfinished : Except RunError Summary → Nat
  | .error (.backend frame _) => frame.toNat
  | _ => 0

namespace Call

def run (c : Call β) (e : Engine σ) : Except RunError Summary × Engine σ × β :=
  Headless.run c.now c.options c.backend c.state e

def handed (c : Call β) (e : Engine σ) : List InputFrame :=
  (Headless.run c.now c.options c.backend.noting (c.state, []) e).2.2.2

/-- The engine after some calls of a runner, and how many frames have been handed out of a run that
the latest of them has left unfinished. -/
def runs (e : Engine σ) (calls : List (Call β)) : Engine σ × Nat :=
  calls.foldl (fun (e, _) c => ((c.run e).2.1, unfinished (c.run e).1)) (e, 0)

/-- The call goes on behind the first `left` frames, and comes to rest with the configured rate
unless the backend fails. If that fails, the run is left where it is, at the rate of the frame that
the backend failed at, and nothing is written. -/
structure Resumes (c : Call β) (left : Nat) (e : Engine σ) : Prop where
  handed : (c.handed e).map (fun f => f.frame.toNat) = List.range' (left + 1) (c.handed e).length
  done : ∀ summary, (c.run e).1 = .ok summary →
    (c.run e).2.1.playback.phase = .idle ∧ (c.run e).2.1.recorder.recording = false ∧
      (c.run e).2.1.clock.rate = e.config.rate ∧ summary.framesPlayed = (c.handed e).length
  unloaded : ∀ cause, (c.run e).1 = .error (.load cause) →
    (c.run e).2.1.playback.phase = .idle ∧ (c.run e).2.1.recorder.recording = false ∧
      c.handed e = []
  failed : ∀ frame cause, (c.run e).1 = .error (.backend frame cause) →
    (c.run e).2.1.playback.isActive ∧ (c.run e).2.1.storage = e.storage ∧
      ∃ f, (c.handed e).getLast? = some f ∧ f.frame = frame ∧
        (c.run e).2.1.clock.rate = f.rate

/-- What the call does is told by what its loop does to a backend that takes notes. -/
theorem run_of_loop (c : Call β) {e s : Engine σ} {start : PlaybackStart}
    {outcome : Except RunError Unit} {q : Progress σ (β × List InputFrame)}
    (hstart : e.startPlayback c.now = (.ok start, s))
    (hplay : playFrames c.now c.backend.noting c.options.maxFrames.toNat
      ⟨s, (c.state, []), [], false⟩ = (outcome, q)) :
    (∃ summary, (c.run e).1 = outcome.map (fun _ => summary) ∧
      summary.framesPlayed = q.played.length) ∧
      (c.run e).2.1 = q.engine ∧ c.handed e = q.backend.2 := by
  have hnoting := run_of_start c.now c.options (c.state, []) hstart hplay
  obtain ⟨notes, hnoted⟩ := run_noted c.now c.options c.backend c.state e []
  have hhanded : c.handed e = q.backend.2 := by rw [handed, hnoting]
  rw [hnoting] at hnoted
  obtain ⟨houtcome, hpair⟩ := Prod.mk.inj hnoted
  have hengine := (Prod.mk.inj hpair).1
  exact ⟨⟨_, houtcome.symm, rfl⟩, hengine.symm, hhanded⟩

theorem resumes_of_ending (c : Call β) {e s : Engine σ} {start : PlaybackStart}
    {frames : List InputFrame} {outcome : Except RunError Unit}
    {q : Progress σ (β × List InputFrame)} (hquiet : e.recorder.recording = false)
    (hstart : e.startPlayback c.now = (.ok start, s))
    (hplay : playFrames c.now c.backend.noting c.options.maxFrames.toNat
      ⟨s, (c.state, []), [], false⟩ = (outcome, q)) (hnotes : q.backend.2 = frames)
    (hending : Ending store count ⟨e, (c.state, []), [], false⟩ q frames outcome) :
    c.Resumes count e ∧ Between (unfinished (c.run e).1) (c.run e).2.1 ∧
      (c.run e).2.1.config = e.config := by
  obtain ⟨⟨summary, hrun, hcount⟩, hengine, hhanded⟩ := c.run_of_loop hstart hplay
  rw [hnotes] at hhanded
  cases hending with
  | closed hframes hplayed hretired =>
    have hretired : e.Retired q.engine := hretired
    have hdone : (c.run e).1 = .ok summary := hrun
    refine ⟨⟨?_, fun told hok => ?_, fun cause herror => ?_, fun frame cause herror => ?_⟩, ?_, ?_⟩
    · rw [hhanded]
      exact hframes.numbers
    · rw [hdone] at hok
      obtain rfl := Except.ok.inj hok
      rw [hengine, hhanded, hretired.playback, hretired.recorder]
      refine ⟨rfl, hquiet, hretired.rate, ?_⟩
      rw [hcount, hplayed]
      simp
    · rw [hdone] at herror
      cases herror
    · rw [hdone] at herror
      cases herror
    · rw [hengine, hdone]
      exact between_of_retired hquiet hretired
    · rw [hengine]
      exact hretired.config
  | broken before f cause hframes hbroken =>
    have hfailed : (c.run e).1 = .error (.backend f.frame cause) := hrun
    have hlast : (before ++ [f])[before.length]? = some f := List.getElem?_concat_length
    have hplace := (hframes _ _ hlast).frame
    have hpositive : 0 < f.frame.toNat := by omega
    refine ⟨⟨?_, fun told hok => ?_, fun cause herror => ?_, fun frame cause herror => ?_⟩, ?_, ?_⟩
    · rw [hhanded]
      exact hframes.numbers
    · rw [hfailed] at hok
      cases hok
    · rw [hfailed] at herror
      cases herror
    · rw [hfailed] at herror
      obtain ⟨rfl, rfl⟩ := RunError.backend.inj (Except.error.inj herror)
      rw [hengine, hhanded]
      exact ⟨hbroken.midway.playing.isActive, hbroken.alike.storage, f,
        List.getLast?_concat, rfl, hbroken.rate⟩
    · rw [hengine, hfailed]
      exact .inr ⟨hpositive, store, hbroken.midway⟩
    · rw [hengine]
      exact hbroken.alike.config

theorem resumes_of_between (c : Call β) {e : Engine σ} {left : Nat} (h : Between left e) :
    c.Resumes left e ∧ Between (unfinished (c.run e).1) (c.run e).2.1 ∧
      (c.run e).2.1.config = e.config := by
  rcases h with ⟨rfl, hidle, hquiet⟩ | ⟨-, store, hmidway⟩
  · cases hload : Script.load e.config.loading e.library e.config.mainScript with
    | error err =>
      have hstart := Engine.startPlayback_of_error c.now hidle hquiet hload
      have hrun : c.run e = (.error (.load err), { e with tracker := {}, saveResults := false },
          c.state) := by
        rw [run, Headless.run, hstart]
      have hhanded : c.handed e = [] := by
        rw [handed, Headless.run, hstart]
      rw [hrun]
      refine ⟨⟨?_, fun summary hok => ?_, fun cause herror => ?_, fun frame cause herror => ?_⟩,
        .inl ⟨rfl, hidle, hquiet⟩, rfl⟩
      · rw [hhanded]
        rfl
      · rw [hrun] at hok
        cases hok
      · rw [hrun]
        exact ⟨hidle, hquiet, hhanded⟩
      · rw [hrun] at herror
        cases herror
    | ok loaded =>
      cases hfull : loaded.store.isEmpty with
      | true =>
        have hstart := Engine.startPlayback_of_empty c.now hidle hquiet hload hfull
        have hretired := (Engine.retired_finalize c.now (e.begin loaded)).of_alike (e := e)
          ⟨rfl, rfl, rfl, rfl⟩
        exact c.resumes_of_ending hquiet hstart
          (playFrames_of_inactive c.now _ hretired.inactive) rfl
          (.closed (.nil loaded.store 0) rfl hretired)
      | false =>
        have hstart : e.startPlayback c.now = (.ok .started, e.begin loaded) :=
          Engine.startPlayback_of_idle c.now hidle hquiet hload hfull
        have hmidway := Engine.Midway.begin hquiet (Script.isPartition_load hload)
          (fun s hs => Script.last_lt_of_load hload hs) hfull
        obtain ⟨frames, outcome, q, hplay, hnotes, hending⟩ :=
          playFrames_noting c.backend c.now c.options.maxFrames.toNat
            (p := ⟨e.begin loaded, (c.state, []), [], false⟩) hmidway
        exact c.resumes_of_ending hquiet hstart hplay hnotes
          (hending.of_alike ⟨rfl, rfl, rfl, rfl⟩ rfl)
  · have hstart := Engine.startPlayback_of_active c.now hmidway.playing.isActive
    obtain ⟨frames, outcome, q, hplay, hnotes, hending⟩ :=
      playFrames_noting c.backend c.now c.options.maxFrames.toNat
        (p := ⟨e, (c.state, []), [], false⟩) hmidway
    exact c.resumes_of_ending hmidway.playing.quiet hstart hplay hnotes hending

theorem between_runs {e : Engine σ} (hidle : e.playback.phase = .idle)
    (hquiet : e.recorder.recording = false) (calls : List (Call β)) :
    Between (runs e calls).2 (runs e calls).1 ∧ (runs e calls).1.config = e.config := by
  induction calls using List.reverseRecOn with
  | nil => exact ⟨.inl ⟨rfl, hidle, hquiet⟩, rfl⟩
  | append_singleton calls latest ih =>
    obtain ⟨hbetween, hconfig⟩ := ih
    have hruns : runs e (calls ++ [latest]) =
        ((latest.run (runs e calls).1).2.1, unfinished (latest.run (runs e calls).1).1) := by
      rw [runs, List.foldl_append]
      rfl
    obtain ⟨-, hnext, hkept⟩ := latest.resumes_of_between hbetween
    rw [hruns]
    exact ⟨hnext, hkept.trans hconfig⟩

/-- Whatever calls a runner has had, the next one resumes the run that the latest of them has left
unfinished, if there is one, and begins with the first frame otherwise. Only a failing backend
leaves a run unfinished. -/
theorem runs_resume_after_failure (e : Engine σ) (hidle : e.playback.phase = .idle)
    (hquiet : e.recorder.recording = false) (earlier : List (Call β)) (c : Call β) :
    let s := (runs e earlier).1
    let left := (runs e earlier).2
    s.config = e.config ∧ (s.playback.phase = .idle ↔ left = 0) ∧ s.recorder.recording = false ∧
      c.Resumes left s := by
  intro s left
  obtain ⟨hbetween, hconfig⟩ := between_runs hidle hquiet earlier
  have hresumes := (c.resumes_of_between hbetween).1
  rcases hbetween with ⟨hleft, hphase, hrests⟩ | ⟨hleft, store, hmidway⟩
  · exact ⟨hconfig, ⟨fun _ => hleft, fun _ => hphase⟩, hrests, hresumes⟩
  · have hactive := Playback.isActive_iff.mp hmidway.playing.isActive
    refine ⟨hconfig, ⟨fun hphase => absurd hphase hactive, fun hzero => ?_⟩,
      hmidway.playing.quiet, hresumes⟩
    exact absurd hzero hleft.ne'

/-- The backend fails at its third frame, so that the second run begins with the fourth. -/
theorem runs_resume_after_failure_of_third :
    let e : Engine MemoryStorage :=
      { config := {}, triggers := {}, storage := ⟨[("main", "frame-rate=30\n10")], []⟩ }
    let c : Call Unit := { backend := .failingAt 3, state := () }
    (runs e [c]).2 = 3 ∧ (runs e [c]).1.playback.phase ≠ .idle ∧ c.Resumes 3 (runs e [c]).1 := by
  intro e c
  have hleft : (runs e [c]).2 = 3 := by decide +kernel
  obtain ⟨-, hphase, -, hresumes⟩ := runs_resume_after_failure e rfl rfl [c] c
  rw [hleft] at hphase hresumes
  exact ⟨hleft, fun hidle => absurd (hphase.mp hidle) (by decide), hresumes⟩

/-- A run that has failed at its third frame leaves the engine playing at the script's rate, and
the next run of the ten frames begins with the fourth and is summed up as one of seven. -/
theorem failed_run_leaves_engine_playing :
    let e : Engine MemoryStorage :=
      { config := {}, triggers := {}, storage := ⟨[("main", "frame-rate=30\n10")], []⟩ }
    let c : Call Unit := { backend := .failingAt 3, state := () }
    let failed := c.run e
    let again := c.run failed.2.1
    failed.1 = .error (.backend 3 "crashed") ∧ failed.2.1.playback.phase = .running ∧
      failed.2.1.clock.rate = 30 ∧ e.config.rate = 60 ∧
      (c.handed failed.2.1).map (fun f => f.frame) = [4, 5, 6, 7, 8, 9, 10] ∧
      again.1.toOption.map Summary.framesPlayed = some 7 ∧ again.2.1.playback.phase = .idle := by
  decide +kernel

end Call

end Headless
end PadScript
