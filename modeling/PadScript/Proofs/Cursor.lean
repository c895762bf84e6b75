import PadScript.Playback
import PadScript.Proofs.Lookup

/-!
# The cursor of a playback

Playing a partition keeps the cursor at the segment that covers the next frame, so that tick by
tick the frames of the store come out in order.
-/
namespace PadScript.Playback

/-- Of `store`, `count` frames have been handed out: the cursor is in the segment of the next
frame, or behind the last segment. -/
structure At (store : Store) (count : Nat) (p : Playback) : Prop where
  plays : p.store = store
  frame : p.frame.toNat = count + 1
  running : count < store.frameCount.toNat →
    p.phase = .running ∧ ∃ s, store.get? p.index = some s ∧ s.contains p.frame
  completing : store.frameCount.toNat ≤ count → p.phase = .completing ∧ p.index = store.size

variable {store : Store} {count : Nat} {p : Playback}

theorem contains_iff {s : Segment} {f : Frame} :
    s.contains f ↔ s.first.toNat ≤ f.toNat ∧ f.toNat ≤ s.last.toNat := by
  simp [Segment.contains, UInt64.le_iff_toNat_le]

theorem start_at (h : store.IsPartition) (hfull : store.isEmpty = false) :
    (start store).At store 0 := by
  obtain ⟨s, hs⟩ : ∃ s, store.get? 0 = some s := by
    have hne : store.segments ≠ [] := by simpa [Store.isEmpty] using hfull
    exact ⟨_, List.getElem?_eq_getElem (List.length_pos_of_ne_nil hne)⟩
  have hfirst := h.first_of_head hs
  have hfilled := h.filled (List.mem_of_getElem? hs)
  have hcount := h.last_le_frameCount hs
  have hstart : start store = { store, phase := .running, frame := 1 } := by
    simp [start, hfull]
  have hcontains : s.contains 1 := contains_iff.mpr ⟨hfirst.le, by rw [UInt64.toNat_one]; omega⟩
  rw [hstart]
  exact ⟨rfl, rfl, fun _ => ⟨rfl, s, hs, hcontains⟩, fun hle => by omega⟩

variable {s : Segment}

theorem At.toNat_next (hp : p.At store count) (hc : s.contains p.frame)
    (hlast : s.last.toNat < Frame.largest.toNat) : (p.frame + 1).toNat = count + 1 + 1 := by
  have hbounds := contains_iff.mp hc
  have hword : Frame.largest.toNat + 1 = 2 ^ 64 := by decide
  rw [UInt64.toNat_add, UInt64.toNat_one, ← hp.frame]
  exact Nat.mod_eq_of_lt (by omega)

theorem At.advance_inside (h : store.IsPartition) (hp : p.At store count)
    (hphase : p.phase = .running) (hs : store.get? p.index = some s) (hc : s.contains p.frame)
    (hlast : s.last.toNat < Frame.largest.toNat) (hend : p.frame ≠ s.last) :
    (p.advance s).At store (count + 1) := by
  have hsize : p.index < store.size := (List.getElem?_eq_some_iff.mp hs).1
  have hadvance : p.advance s = { p with frame := p.frame + 1 } := by
    simp [advance, hend, hp.plays, hsize]
  have hframe := hp.toNat_next hc hlast
  have hat := hp.frame
  have hbounds := contains_iff.mp hc
  have hcount := h.last_le_frameCount hs
  have hne : p.frame.toNat ≠ s.last.toNat := mt UInt64.toNat_inj.mp hend
  have hcontains : s.contains (p.frame + 1) := contains_iff.mpr ⟨by omega, by omega⟩
  rw [hadvance]
  exact ⟨hp.plays, hframe, fun _ => ⟨hphase, s, hs, hcontains⟩, fun hle => by omega⟩

theorem At.advance_end (h : store.IsPartition) (hp : p.At store count)
    (hphase : p.phase = .running) (hs : store.get? p.index = some s) (hc : s.contains p.frame)
    (hlast : s.last.toNat < Frame.largest.toNat) (hend : p.frame = s.last) :
    (p.advance s).At store (count + 1) := by
  have hadvance : p.advance s = { p with
      index := p.index + 1, frame := p.frame + 1
      phase := if store.size ≤ p.index + 1 then .completing else p.phase } := by
    simp [advance, hend, hp.plays]
  have hframe := hp.toNat_next hc hlast
  have hat := hp.frame
  have hsame : p.frame.toNat = s.last.toNat := UInt64.toNat_inj.mpr hend
  rw [hadvance]
  cases ht : store.get? (p.index + 1) with
  | some t =>
    have hnext := h.first_eq_succ hs ht
    have hfilled := h.filled (List.mem_of_getElem? ht)
    have hcount := h.last_le_frameCount ht
    have hsize : ¬ store.size ≤ p.index + 1 :=
      Nat.not_le.mpr (List.getElem?_eq_some_iff.mp ht).1
    have hcontains : t.contains (p.frame + 1) := contains_iff.mpr ⟨by omega, by omega⟩
    exact ⟨hp.plays, hframe, fun _ => ⟨by simp [hsize, hphase], t, ht, hcontains⟩,
      fun hle => by omega⟩
  | none =>
    have hindex : p.index < store.size := (List.getElem?_eq_some_iff.mp hs).1
    have hsize : store.size ≤ p.index + 1 := List.getElem?_eq_none_iff.mp ht
    have hframes := Store.frameCount_eq_last hs (by omega)
    refine ⟨hp.plays, hframe, fun hlt => ?_, fun _ => ⟨by simp [hsize], ?_⟩⟩
    · rw [hframes] at hlt
      omega
    · show p.index + 1 = store.size
      omega

theorem advance_at (h : store.IsPartition)
    (hlast : ∀ s ∈ store.segments, s.last.toNat < Frame.largest.toNat) (hp : p.At store count)
    (hphase : p.phase = .running) (hs : store.get? p.index = some s)
    (hc : s.contains p.frame) : (p.advance s).At store (count + 1) := by
  have hbelow := hlast s (List.mem_of_getElem? hs)
  by_cases hend : p.frame = s.last
  · exact hp.advance_end h hphase hs hc hbelow hend
  · exact hp.advance_inside h hphase hs hc hbelow hend

theorem At.tick_eq (hp : p.At store count) (hphase : p.phase = .running)
    (hs : store.get? p.index = some s) (clock : FrameClock) :
    p.tick clock = (some (.ofSegment p.frame s), p.advance s, p.retime s clock) := by
  simp [tick, hphase, hp.plays, hs]

/-- A tick hands out the next frame of the store, with the settings of the segment that covers it
and the input at its place in the expansion. -/
theorem tick_at (h : store.IsPartition)
    (hlast : ∀ s ∈ store.segments, s.last.toNat < Frame.largest.toNat) (hp : p.At store count)
    (hcount : count < store.frameCount.toNat) (clock : FrameClock) :
    ∃ i s, store.indexAt? p.frame = some i ∧ store.get? i = some s ∧
      store.expand[count]? = some s.input ∧
      (p.tick clock).1 = some (.ofSegment p.frame s) ∧
      (p.tick clock).2.1.At store (count + 1) := by
  obtain ⟨hphase, s, hs, hc⟩ := hp.running hcount
  have hbounds := contains_iff.mp hc
  have hexpand := h.expand_getElem? le_rfl hs hbounds.1 hbounds.2
  rw [hp.frame, Nat.add_sub_cancel] at hexpand
  rw [hp.tick_eq hphase hs]
  exact ⟨p.index, s, h.indexAt?_eq_some hs hc, hs, hexpand, rfl,
    advance_at h hlast hp hphase hs hc⟩

end PadScript.Playback
