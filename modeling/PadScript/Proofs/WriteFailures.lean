import PadScript.Proofs.RunCourse
import PadScript.Storage.Memory

/-!
# Failed writes change nothing but outputs

An engine writes when a run or a recording ends, in the middle of other changes. Two engines that
differ in their storages alone, which hold the same scripts, answer alike and stay alike under the
same operations, whatever becomes of the writes.
-/
namespace PadScript

/-- What is written is not read back as a script, whether the write succeeds or fails. -/
class Storage.OutputsApart (σ : Type) [Storage σ] : Prop where
  read_write : ∀ (s : σ) (name contents : String),
    Storage.read (Storage.write s name contents).2 = Storage.read s

/-- No write fails. -/
class Storage.Reliable (σ : Type) [Storage σ] : Prop where
  write_ok : ∀ (s : σ) (name contents : String), (Storage.write s name contents).1 = .ok ()

instance : Storage.OutputsApart MemoryStorage := ⟨fun _ _ _ => rfl⟩

instance : Storage.Reliable MemoryStorage := ⟨fun _ _ _ => rfl⟩

/-- A journal of such a storage is one as well, also while it refuses writes. -/
instance {σ : Type} [Storage σ] [Storage.OutputsApart σ] : Storage.OutputsApart (Journal σ) where
  read_write j name contents := by
    by_cases hrefusing : j.refusing
    · simp [Storage.write, hrefusing, Storage.read]
    · have hinner := Storage.OutputsApart.read_write j.inner name contents
      funext other
      simp only [Storage.write, hrefusing, Storage.read]
      exact congrFun hinner other

namespace MemoryStorage

theorem read_insertScript (s : MemoryStorage) (name text other : String) :
    Storage.read (s.insertScript name text) other =
      if other = name then .ok text else Storage.read s other := by
  have hlookup := Texts.lookup_put s.scripts name other text
  by_cases h : other = name
  · rw [if_pos h] at hlookup ⊢
    simp [Storage.read, insertScript, hlookup]
  · rw [if_neg h] at hlookup ⊢
    simp [Storage.read, insertScript, hlookup]

end MemoryStorage

/-- The second reply is the first one, or tells of a recording that was written the first time and
could not be written the second time. -/
inductive Reply.Agrees : Reply → Reply → Prop
  | same (r : Reply) : r.Agrees r
  | unwritten (name : String) (err : StorageError) :
      Reply.Agrees (.stopped (.ok (some name))) (.stopped (.error err))

theorem Reply.agrees_written (name : String) (outcome : Except StorageError Unit) :
    Reply.Agrees (.stopped (.ok (some name))) (.stopped (outcome.map fun _ => some name)) := by
  cases outcome with
  | ok written => exact .same _
  | error err => exact .unwritten name err

/-- The same operation on two storages; a change of scripts is the same if it leaves equal scripts
equal. -/
inductive Operation.Pairs {σ τ : Type} [Storage σ] [Storage τ] : Operation σ → Operation τ → Prop
  | poll (live : Controller) : Pairs (.poll live) (.poll live)
  | submit (results : FrameResults) : Pairs (.submit results) (.submit results)
  | startPlayback : Pairs .startPlayback .startPlayback
  | cancelPlayback : Pairs .cancelPlayback .cancelPlayback
  | startRecording : Pairs .startRecording .startRecording
  | stopRecording : Pairs .stopRecording .stopRecording
  | drift (rate : UInt32) : Pairs (.drift rate) (.drift rate)
  | edit {change : σ → σ} {change' : τ → τ}
      (scripts : ∀ s t, Storage.read t = Storage.read s →
        Storage.read (change' t) = Storage.read (change s)) :
      Pairs (.edit change) (.edit change')

theorem Operation.pairs_insertScript (name text : String) (refusing : Bool) :
    Operation.Pairs (.edit fun s : MemoryStorage => s.insertScript name text)
      (.edit fun j : Journal MemoryStorage =>
        { j with inner := j.inner.insertScript name text, refusing }) := by
  refine .edit fun s j hscripts => funext fun other => ?_
  have hinner : Storage.read j.inner other = Storage.read s other := congrFun hscripts other
  show Storage.read (j.inner.insertScript name text) other = _
  rw [MemoryStorage.read_insertScript, MemoryStorage.read_insertScript, hinner]

namespace Engine

variable {σ τ : Type} {e : Engine σ} {s : Engine τ}

def withStorage (e : Engine σ) (storage : τ) : Engine τ where
  config := e.config
  triggers := e.triggers
  storage := storage
  clock := e.clock
  playback := e.playback
  recorder := e.recorder
  tracker := e.tracker
  saveResults := e.saveResults
  diagnostics := e.diagnostics
  held := e.held

variable [Storage σ] [Storage τ]

/-- The second engine is the first one on a storage with the same scripts. -/
def Twin (e : Engine σ) (s : Engine τ) : Prop :=
  ∃ storage : τ, s = e.withStorage storage ∧ Storage.read storage = e.library

theorem Twin.next (h : e.Twin s) : s.next.1 = e.next.1 ∧ e.next.2.Twin s.next.2 := by
  obtain ⟨storage, rfl, hscripts⟩ := h
  exact ⟨rfl, storage, rfl, hscripts⟩

theorem Twin.record (h : e.Twin s) (live : Controller) :
    ({ e with recorder := e.recorder.record live } : Engine σ).Twin
      { s with recorder := s.recorder.record live } := by
  obtain ⟨storage, rfl, hscripts⟩ := h
  exact ⟨storage, rfl, hscripts⟩

theorem Twin.startRecording (h : e.Twin s) :
    s.startRecording.1 = e.startRecording.1 ∧ e.startRecording.2.Twin s.startRecording.2 := by
  obtain ⟨storage, rfl, hscripts⟩ := h
  by_cases hbusy : e.playback.isActive || e.recorder.recording
  · have hstart : e.startRecording = (false, e) := if_pos hbusy
    have hstart' : (e.withStorage storage).startRecording = (false, e.withStorage storage) :=
      if_pos hbusy
    rw [hstart, hstart']
    exact ⟨rfl, storage, rfl, hscripts⟩
  · have hstart : e.startRecording = (true, { e with recorder := e.recorder.start }) :=
      if_neg hbusy
    have hstart' : (e.withStorage storage).startRecording =
        (true, ({ e with recorder := e.recorder.start } : Engine σ).withStorage storage) :=
      if_neg hbusy
    rw [hstart, hstart']
    exact ⟨rfl, storage, rfl, hscripts⟩

theorem Twin.agrees_stopRecording [Storage.Reliable σ] (h : e.Twin s) (now : Moment) :
    Reply.Agrees (.stopped (e.stopRecording now).1) (.stopped (s.stopRecording now).1) := by
  obtain ⟨storage, rfl, -⟩ := h
  cases hrecording : e.recorder.recording with
  | true =>
    rw [stopRecording_of_recording now hrecording,
      stopRecording_of_recording (e := e.withStorage storage) now hrecording,
      Storage.Reliable.write_ok]
    exact Reply.agrees_written _ _
  | false =>
    rw [stopRecording_of_quiet now hrecording,
      stopRecording_of_quiet (e := e.withStorage storage) now hrecording]
    exact .same _

variable [Storage.OutputsApart σ] [Storage.OutputsApart τ]

theorem read_writes {storage : σ} {other : τ} (h : Storage.read other = Storage.read storage)
    (name contents : String) :
    Storage.read (Storage.write other name contents).2 =
      Storage.read (Storage.write storage name contents).2 := by
  rw [Storage.OutputsApart.read_write, Storage.OutputsApart.read_write, h]

/-- The log is written or it is not; the run is forgotten and the rate is set in any case. -/
theorem Twin.finalize (h : e.Twin s) (now : Moment) : (e.finalize now).Twin (s.finalize now) := by
  obtain ⟨storage, rfl, hscripts⟩ := h
  rw [finalize_eq, finalize_eq]
  refine ⟨_, rfl, ?_⟩
  show Storage.read (if e.saveResults then _ else storage) =
    Storage.read (if e.saveResults then _ else _)
  split
  · exact read_writes hscripts _ _
  · exact hscripts

theorem Twin.finalizeIfComplete (h : e.Twin s) (now : Moment) :
    (e.finalizeIfComplete now).Twin (s.finalizeIfComplete now) := by
  have hphase : s.playback.phase = e.playback.phase := by
    obtain ⟨storage, rfl, -⟩ := h
    rfl
  unfold Engine.finalizeIfComplete
  rw [hphase]
  split
  · exact h.finalize now
  · exact h

theorem Twin.submit (h : e.Twin s) (now : Moment) (results : FrameResults) :
    (e.submit now results).Twin (s.submit now results) := by
  obtain ⟨storage, rfl, hscripts⟩ := h
  by_cases hlost : !e.playback.isActive || results.frame == 0
  · have hsubmit : e.submit now results = e := if_pos hlost
    have hsubmit' : (e.withStorage storage).submit now results = e.withStorage storage :=
      if_pos hlost
    rw [hsubmit, hsubmit']
    exact ⟨storage, rfl, hscripts⟩
  · obtain ⟨t, ht⟩ : ∃ t : Engine σ, t = { e with
        tracker := e.tracker.record results (e.playback.store.markerAt results.frame) } := ⟨_, rfl⟩
    have hsubmit : e.submit now results = t.finalizeIfComplete now := by
      rw [ht]
      exact if_neg hlost
    have hsubmit' : (e.withStorage storage).submit now results =
        (t.withStorage storage).finalizeIfComplete now := by
      rw [ht]
      exact if_neg hlost
    rw [hsubmit, hsubmit']
    exact Twin.finalizeIfComplete ⟨storage, rfl, by rw [hscripts, ht]; rfl⟩ now

theorem Twin.cancelPlayback (h : e.Twin s) (now : Moment) :
    (e.cancelPlayback now).Twin (s.cancelPlayback now) := by
  have hactive : s.playback.isActive = e.playback.isActive := by
    obtain ⟨storage, rfl, -⟩ := h
    rfl
  unfold Engine.cancelPlayback
  rw [hactive]
  split
  · exact h.finalize now
  · exact h

theorem Twin.startPlayback (h : e.Twin s) (now : Moment) :
    (s.startPlayback now).1 = (e.startPlayback now).1 ∧
      (e.startPlayback now).2.Twin (s.startPlayback now).2 := by
  obtain ⟨storage, rfl, hscripts⟩ := h
  by_cases hactive : e.playback.isActive
  · rw [startPlayback_of_active now hactive,
      startPlayback_of_active (e := e.withStorage storage) now hactive]
    exact ⟨rfl, storage, rfl, hscripts⟩
  rw [Bool.not_eq_true] at hactive
  have hidle := Playback.isActive_eq_false_iff.mp hactive
  cases hquiet : e.recorder.recording with
  | true =>
    rw [startPlayback_of_recording now hactive hquiet,
      startPlayback_of_recording (e := e.withStorage storage) now hactive hquiet]
    exact ⟨rfl, storage, rfl, hscripts⟩
  | false =>
    have hlibrary : (e.withStorage storage).library = e.library := hscripts
    cases hload : Script.load e.config.loading e.library e.config.mainScript with
    | error err =>
      have hload' := hlibrary ▸ hload
      rw [startPlayback_of_error now hidle hquiet hload,
        startPlayback_of_error (e := e.withStorage storage) now hidle hquiet hload']
      exact ⟨rfl, storage, rfl, hscripts⟩
    | ok loaded =>
      have hload' := hlibrary ▸ hload
      cases hfull : loaded.store.isEmpty with
      | true =>
        rw [startPlayback_of_empty now hidle hquiet hload hfull,
          startPlayback_of_empty (e := e.withStorage storage) now hidle hquiet hload' hfull]
        have hbegun : (e.begin loaded).Twin ((e.withStorage storage).begin loaded) :=
          ⟨storage, rfl, hscripts⟩
        exact ⟨rfl, hbegun.finalize now⟩
      | false =>
        rw [startPlayback_of_idle now hidle hquiet hload hfull,
          startPlayback_of_idle (e := e.withStorage storage) now hidle hquiet hload' hfull]
        exact ⟨rfl, storage, rfl, hscripts⟩

/-- The recorder is emptied on both sides, even if the recording could not be written. -/
theorem Twin.stopRecording (h : e.Twin s) (now : Moment) :
    (e.stopRecording now).2.Twin (s.stopRecording now).2 := by
  obtain ⟨storage, rfl, hscripts⟩ := h
  cases hrecording : e.recorder.recording with
  | true =>
    rw [stopRecording_of_recording now hrecording,
      stopRecording_of_recording (e := e.withStorage storage) now hrecording]
    exact ⟨_, rfl, read_writes hscripts _ _⟩
  | false =>
    rw [stopRecording_of_quiet now hrecording,
      stopRecording_of_quiet (e := e.withStorage storage) now hrecording]
    exact ⟨storage, rfl, hscripts⟩

theorem Twin.react (h : e.Twin s) (now : Moment) (buttons : Buttons) :
    (s.react now buttons).1 = (e.react now buttons).1 ∧
      (e.react now buttons).2.Twin (s.react now buttons).2 := by
  obtain ⟨storage, rfl, hscripts⟩ := h
  have hheld : ({ e with held := buttons } : Engine σ).Twin
      (({ e with held := buttons } : Engine σ).withStorage storage) := ⟨storage, rfl, hscripts⟩
  unfold Engine.react
  dsimp only [withStorage] at hheld ⊢
  by_cases hedge : !(buttons != e.held)
  · rw [if_pos hedge, if_pos hedge]
    exact ⟨rfl, hheld⟩
  rw [if_neg hedge, if_neg hedge]
  by_cases hactive : e.playback.isActive
  · rw [if_pos hactive, if_pos hactive]
    refine ⟨rfl, ?_⟩
    dsimp only
    split
    · exact hheld.finalize now
    · exact hheld
  rw [if_neg hactive, if_neg hactive]
  by_cases hrecording : e.recorder.recording
  · rw [if_pos hrecording, if_pos hrecording]
    split
    · exact ⟨rfl, hheld.stopRecording now⟩
    · exact ⟨rfl, hheld⟩
  rw [if_neg hrecording, if_neg hrecording]
  by_cases hplay : buttons = e.triggers.startPlayback
  · rw [if_pos hplay, if_pos hplay]
    exact ⟨rfl, (hheld.startPlayback now).2⟩
  rw [if_neg hplay, if_neg hplay]
  split
  · exact ⟨rfl, hheld.startRecording.2⟩
  · exact ⟨rfl, hheld⟩

theorem Twin.poll (h : e.Twin s) (now : Moment) (live : Controller) :
    (s.poll now live).1 = (e.poll now live).1 ∧
      (e.poll now live).2.Twin (s.poll now live).2 := by
  obtain ⟨htoggled, hreact⟩ := h.react now live.buttons
  obtain ⟨hframe, hnext⟩ := (hreact.finalizeIfComplete now).next
  unfold Engine.poll
  dsimp only
  rw [htoggled]
  refine ⟨hframe, ?_⟩
  split
  · exact hnext
  · exact hnext.record live

/-- One operation on both: the replies agree, and the engines stay alike. -/
theorem Twin.perform [Storage.Reliable σ] (h : e.Twin s) (now : Moment) {op : Operation σ}
    {op' : Operation τ} (hop : op.Pairs op') :
    (e.perform now op).1.Agrees (s.perform now op').1 ∧
      (e.perform now op).2.Twin (s.perform now op').2 := by
  cases hop with
  | poll live =>
    obtain ⟨hframe, hpoll⟩ := h.poll now live
    refine ⟨?_, hpoll⟩
    show Reply.Agrees (.frame (e.poll now live).1) (.frame (s.poll now live).1)
    rw [hframe]
    exact .same _
  | submit results => exact ⟨.same _, h.submit now results⟩
  | startPlayback =>
    obtain ⟨houtcome, hstart⟩ := h.startPlayback now
    refine ⟨?_, hstart⟩
    show Reply.Agrees (.started (e.startPlayback now).1) (.started (s.startPlayback now).1)
    rw [houtcome]
    exact .same _
  | cancelPlayback => exact ⟨.same _, h.cancelPlayback now⟩
  | startRecording =>
    obtain ⟨hon, hstart⟩ := h.startRecording
    refine ⟨?_, hstart⟩
    show Reply.Agrees (.toggled e.startRecording.1) (.toggled s.startRecording.1)
    rw [hon]
    exact .same _
  | stopRecording => exact ⟨h.agrees_stopRecording now, h.stopRecording now⟩
  | drift rate =>
    obtain ⟨storage, rfl, hscripts⟩ := h
    exact ⟨.same _, storage, rfl, hscripts⟩
  | @edit change change' hchange =>
    obtain ⟨storage, rfl, hscripts⟩ := h
    exact ⟨.same _, change' storage, rfl, hchange e.storage storage hscripts⟩

end Engine

/-- The same history on two storages. -/
abbrev SameHistory {σ τ : Type} [Storage σ] [Storage τ] :
    List (Moment × Operation σ) → List (Moment × Operation τ) → Prop :=
  List.Forall₂ fun step step' => step.1 = step'.1 ∧ step.2.Pairs step'.2

namespace Engine

variable {σ τ : Type} [Storage σ] [Storage τ]

def replies (e : Engine σ) : List (Moment × Operation σ) → List Reply
  | [] => []
  | (now, op) :: rest => (e.perform now op).1 :: (e.perform now op).2.replies rest

variable [Storage.OutputsApart σ] [Storage.OutputsApart τ] [Storage.Reliable σ]
  {e : Engine σ} {s : Engine τ}

theorem Twin.run {history : List (Moment × Operation σ)} {other : List (Moment × Operation τ)}
    (h : e.Twin s) (hhistory : SameHistory history other) :
    List.Forall₂ Reply.Agrees (e.replies history) (s.replies other) ∧
      (e.run history).Twin (s.run other) := by
  induction hhistory generalizing e s with
  | nil => exact ⟨.nil, h⟩
  | @cons step step' rest rest' hstep _ ih =>
    obtain ⟨now, op⟩ := step
    obtain ⟨now', op'⟩ := step'
    obtain ⟨rfl, hop⟩ := hstep
    obtain ⟨hreply, hnext⟩ := h.perform now hop
    obtain ⟨hreplies, hrun⟩ := ih hnext
    exact ⟨.cons hreply hreplies, hrun⟩

/-- Whatever is done with an engine, writes that fail change nothing but what is written. On a
storage that holds the same scripts and on which any of the writes may fail, each operation is
answered as on one that never fails, except that a stop tells of a recording that could not be
written; and after each operation the two engines are the same but for their storages, which still
hold the same scripts. -/
theorem failed_writes_change_outputs_only (e : Engine σ) (storage : τ)
    (history : List (Moment × Operation σ)) (other : List (Moment × Operation τ))
    (hscripts : Storage.read storage = e.library) (hhistory : SameHistory history other) :
    List.Forall₂ Reply.Agrees (e.replies history) ((e.withStorage storage).replies other) ∧
    ∀ k, ∃ written : τ,
      (e.withStorage storage).run (other.take k) = (e.run (history.take k)).withStorage written ∧
      Storage.read written = (e.run (history.take k)).library := by
  have htwin : e.Twin (e.withStorage storage) := ⟨storage, rfl, hscripts⟩
  refine ⟨(htwin.run hhistory).1, fun k => ?_⟩
  exact (htwin.run (List.forall₂_take k hhistory)).2

/-- The log of a run is written; then a script is inserted and the disk is full, so that a recording
is lost. Both engines are at rest afterwards and load the new script. -/
theorem failed_writes_change_outputs_only_of_lost_recording :
    let scripts : MemoryStorage := ⟨[("main", "save-results=true\n1,X")], []⟩
    let e : Engine MemoryStorage := { config := {}, triggers := {}, storage := scripts }
    let now : Moment := ⟨"7", ""⟩
    let play {σ : Type} : List (Moment × Operation σ) :=
      [(now, .startPlayback), (now, .poll {}), (now, .submit { frame := 1 })]
    let record {σ : Type} : List (Moment × Operation σ) :=
      [(now, .startRecording), (now, .poll { buttons := .ofButton .up }), (now, .stopRecording)]
    let history := play ++
      (now, .edit fun s => s.insertScript "main" "2,Up") :: record ++ [(now, .startPlayback)]
    let other := play ++ (now, .edit fun j : Journal MemoryStorage =>
      { j with inner := j.inner.insertScript "main" "2,Up", refusing := true }) :: record ++
        [(now, .startPlayback)]
    let s := e.withStorage ({ inner := scripts } : Journal MemoryStorage)
    List.Forall₂ Reply.Agrees (e.replies history) (s.replies other) ∧
      (e.run history).Twin (s.run other) ∧
      (e.run history).storage.outputs.length = 2 ∧
      (s.run other).storage.attempts.map Attempt.succeeded = [true, false] ∧
      (s.run other).playback.phase = .running ∧ (s.run other).playback.store.frameCount = 2 := by
  intro scripts e now play record history other s
  have hhistory : SameHistory history other := by
    refine .cons ⟨rfl, .startPlayback⟩ (.cons ⟨rfl, .poll _⟩ (.cons ⟨rfl, .submit _⟩
      (.cons ⟨rfl, Operation.pairs_insertScript _ _ _⟩ (.cons ⟨rfl, .startRecording⟩
        (.cons ⟨rfl, .poll _⟩ (.cons ⟨rfl, .stopRecording⟩ (.cons ⟨rfl, .startPlayback⟩ .nil)))))))
  have hruns := failed_writes_change_outputs_only e ({ inner := scripts } : Journal MemoryStorage)
    history other rfl hhistory
  refine ⟨hruns.1, hruns.2 8, ?_, ?_, ?_, ?_⟩
  · decide +kernel
  · decide +kernel
  · decide +kernel
  · decide +kernel

end Engine
end PadScript
