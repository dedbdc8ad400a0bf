import PrismSdk.Camera.Results
import PrismSdk.Library.Regrouped

/-! Frame IDs moved along the number circle: the calls, the slots and the results of
a run with `k` added to each. A slot reads nothing of its frame's ID, and the serial
comparison reads differences. -/

namespace PrismSdk

/-- The message with `k` added to its frame ID. -/
def VideoChunkView.shift (k : UInt32) (chunk : VideoChunkView) : VideoChunkView :=
  { chunk with frameId := chunk.frameId + k }

/-- The message with `k` added to the frame ID of the host, and `j` to the one of the
carrier, which the assembler does not look at. -/
def VideoMeta.shift (k j : UInt32) (metadata : VideoMeta) : VideoMeta :=
  { metadata with
    hostFrameId := metadata.hostFrameId + k, carrierFrameId := metadata.carrierFrameId + j }

namespace Camera

def Call.shift (k j : UInt32) : Call → Call
  | .ingest chunk entered appended => .ingest (chunk.shift k) entered appended
  | .addMetadata metadata now => .addMetadata (metadata.shift k j) now
  | .expire now => .expire now
  | .reset => .reset

/-- A set of a frame whose metadata was not received holds the default of its fields. -/
def CameraFrameSet.shift (k j : UInt32) (received : Bool) (set : CameraFrameSet) :
    CameraFrameSet :=
  { set with
    frameId := set.frameId + k
    metadata := if received then set.metadata.shift k j else set.metadata }

def CameraFrameDiagnostic.shift (k : UInt32) (info : CameraFrameDiagnostic) :
    CameraFrameDiagnostic :=
  { info with frameId := info.frameId + k }

/-- The result says that the metadata of a discarded frame was received. -/
def CameraChunkResult.describes (r : CameraChunkResult) (f : UInt32) : Bool :=
  r.discardedDiagnostics.any fun info => info.frameId = f && info.metadataReceived

/-- The results agree but for `k` and the order of the lists. -/
structure CameraChunkResult.Shifted (k j : UInt32) (r r' : CameraChunkResult) : Prop where
  completed : r'.completed = r.completed.map (·.shift k j true)
  discarded : r'.discardedIncompleteFrameIds.Perm (r.discardedIncompleteFrameIds.map (· + k))
  diagnostics : r'.discardedDiagnostics.Perm (r.discardedDiagnostics.map (·.shift k))
  partials : r'.partialFrames.Perm
    (r.partialFrames.map fun set => set.shift k j (r.describes set.frameId))

theorem frameIdIsNewer_add (k a b : UInt32) :
    frameIdIsNewer (a + k) (b + k) = frameIdIsNewer a b :=
  decide_eq_decide.2 (Library.Serial.newer_add_right a.toBitVec b.toBitVec k.toBitVec)

/-! ### Slots -/

namespace Slot

def shift (k j : UInt32) (t : Slot) : Slot := { t with metadata := t.metadata.map (·.shift k j) }

variable (k j : UInt32) (t : Slot)

theorem shift_held : (t.shift k j).Held ↔ t.Held := by
  simp [Held, shift]

theorem shift_reject (camera : UInt8) :
    (t.reject camera).shift k j = (t.shift k j).reject camera := by
  unfold reject
  split_ifs <;> rfl

theorem shift_completed (f : UInt32) :
    (t.shift k j).completed (f + k) = (t.completed f).map (·.shift k j true) := by
  unfold completed shift
  cases t.frameSet with
  | none => rfl
  | some frameSet =>
    cases t.metadata with
    | none => rfl
    | some metadata =>
      have hiff : Assembler.IsComplete frameSet (metadata.shift k j) ↔
          Assembler.IsComplete frameSet metadata := Iff.rfl
      simp only [Option.bind_some, Option.map_some, hiff]
      split_ifs <;> rfl

theorem shift_surviving (f : UInt32) :
    (t.shift k j).surviving (f + k) =
      (t.surviving f).map (·.shift k j t.metadata.isSome) := by
  obtain ⟨started, frameSet, metadata, image⟩ := t
  cases frameSet with
  | none => rfl
  | some frame =>
    unfold surviving shift
    have hcomplete : isComplete ⟨started, some frame, metadata.map (·.shift k j), image⟩ =
        isComplete ⟨started, some frame, metadata, image⟩ := rfl
    simp only [Option.bind_some, hcomplete]
    split_ifs
    · cases metadata <;> rfl
    · rfl

variable {k j t}

/-- A chunk makes the same move on a shifted slot. -/
theorem Ingested.shift {chunk : VideoChunkView} {entered appended : TimePoint} {t' : Slot}
    {done : Option CameraFrameSet} (h : Ingested chunk entered appended t t' done) :
    Ingested (chunk.shift k) entered appended (t.shift k j) (t'.shift k j)
      (done.map (·.shift k j true)) := by
  cases h with
  | invalid h =>
    rw [shift_reject]
    exact .invalid h
  | ignored h hi => exact .ignored h hi
  | discontinuous h hi hc =>
    rw [shift_reject]
    exact .discontinuous h hi hc
  | extended h hi hc hlt => exact .extended h hi hc hlt
  | repeated h hi hc hge hr =>
    rw [shift_reject]
    exact .repeated h hi hc hge hr
  | stored h hi hc hge hr hlen hn =>
    have hn' := shift_completed k j (t.stored chunk (chunkCamera chunk h) appended) chunk.frameId
    rw [hn] at hn'
    exact @Ingested.stored (chunk.shift k) entered appended (t.shift k j) h hi hc hge hr hlen hn'
  | finished h hi hc hge hr hlen set hn =>
    have hn' := shift_completed k j (t.stored chunk (chunkCamera chunk h) appended) chunk.frameId
    rw [hn] at hn'
    exact @Ingested.finished (chunk.shift k) entered appended (t.shift k j) h hi hc hge hr hlen
      (set.shift k j true) hn'

/-- The slot and the chunk decide the move: the guards exclude one another. -/
theorem Ingested.unique {chunk : VideoChunkView} {entered appended : TimePoint} {t₁ t₂ : Slot}
    {done₁ done₂ : Option CameraFrameSet} (h₁ : Ingested chunk entered appended t t₁ done₁)
    (h₂ : Ingested chunk entered appended t t₂ done₂) : t₁ = t₂ ∧ done₁ = done₂ := by
  cases h₁ <;> cases h₂ <;> simp_all

end Slot

end Camera

end PrismSdk
