import HeadUnitLink.Proofs.Engine.Run
import HeadUnitLink.Proofs.Receiver.Loop

/-!
# The versions that an engine speaks

Control frames have the version of the receiving side, which the head unit and
the application can change.  Neither can lead it out of the range of the
settings: `Engine.Reachable.spoken`.
-/

namespace HeadUnitLink

/-- The version is in the range of the settings. -/
def Config.Spoken (config : Config) (version : UInt8) : Prop :=
  minVersion ≤ version ∧ version ≤ config.maxVersion

/-- Settings without a fault leave room for a payload and speak the highest
version that they name. -/
theorem Config.fault?_eq_none {config : Config} (h : config.fault? = none) :
    maxHeaderSize < config.mtu ∧ config.Spoken config.maxVersion ∧
      config.maxVersion ≤ HeadUnitLink.maxVersion := by
  unfold fault? at h
  split at h
  · exact absurd h (by simp)
  · rename_i hmtu
    split at h
    · exact absurd h (by simp)
    · rename_i hversion
      rw [not_or, UInt8.not_lt, UInt8.not_lt] at hversion
      exact ⟨Nat.lt_of_not_le hmtu, ⟨hversion.1, UInt8.le_refl _⟩, hversion.2⟩

namespace Receiver

variable {config : Config}

theorem spoken_clampVersion (hmax : minVersion ≤ config.maxVersion) (version : UInt8) :
    config.Spoken (clampVersion config version) := by
  unfold clampVersion
  split
  · exact ⟨UInt8.le_refl _, hmax⟩
  · rename_i hmin
    split
    · exact ⟨hmax, UInt8.le_refl _⟩
    · rename_i hle
      exact ⟨UInt8.not_lt.1 hmin, UInt8.not_lt.1 hle⟩

theorem spoken_route (hmax : minVersion ≤ config.maxVersion) {r : Receiver}
    (h : config.Spoken r.version) (frame : Frame) :
    config.Spoken (route config r frame).1.version := by
  unfold route
  split
  · exact h
  · exact h
  · exact h
  · unfold routeControl
    split
    · exact h
    · exact h
    · unfold follow
      split
      · exact spoken_clampVersion hmax _
      · exact h
      · exact h
      · exact h
  · exact h

theorem version_resync (config : Config) (r : Receiver) (e : FrameError) :
    (resync config r e).1.version = r.version := by
  unfold resync
  split <;> rfl

/-- Received bytes keep the version of a receiver in range. -/
theorem spoken_receive (hmax : minVersion ≤ config.maxVersion) {r : Receiver}
    (h : config.Spoken r.version) (chunk : Bytes) :
    config.Spoken (r.receive config chunk).1.version := by
  refine drain_induction (P := fun r => config.Spoken r.version) ?_ (r.feed chunk) h
  intro r r' notices hstep hr
  rcases step_cases hstep with ⟨frame, rest, _, hroute⟩ | ⟨e, _, hresync⟩
  · have hversion :=
      spoken_route hmax (r := { r with buffer := rest, resyncing := false }) hr frame
    rw [hroute] at hversion
    exact hversion
  · have hversion := version_resync config r e
    rw [hresync] at hversion
    simp only at hversion
    rw [hversion]
    exact hr

end Receiver

namespace Engine

variable {config : Config} {e : Engine}

theorem speaks_iff {version : UInt8} : e.speaks version = true ↔ e.config.Spoken version := by
  unfold speaks
  rw [Bool.and_eq_true, decide_eq_true_iff, decide_eq_true_iff]
  rfl

/-- The version of the control frames stays in range. -/
theorem Reachable.spoken (h : Reachable config e) (hconfig : config.fault? = none) :
    config.Spoken e.version := by
  obtain ⟨_, ⟨hmax, _⟩, _⟩ := Config.fault?_eq_none hconfig
  exact h.receiver_induction (P := fun r => config.Spoken r.version) ⟨UInt8.le_refl _, hmax⟩
    (fun r chunk hr => Receiver.spoken_receive hmax hr chunk)
    (fun r version hmin hversion _ => ⟨hmin, hversion⟩)

/-- Only a version that is spoken is sent. -/
theorem spoken_of_send {m : Message} {id : UInt32} (h : (e.send m).1 = .ok id) :
    e.config.Spoken m.version := by
  unfold send at h
  split at h
  · exact absurd h (by simp)
  · rename_i hspeaks
    exact speaks_iff.1 (by simpa using hspeaks)

end Engine

end HeadUnitLink
