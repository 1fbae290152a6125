import BuildReplay.Proofs.Android.Collections
import BuildReplay.Proofs.Position

/-! # Where the errors of the application model point -/

namespace BuildReplay.Android

/-- Whatever the table and the object that it is applied to, an error is the host's own or points
into the table, below the keys that the table itself stands under. No value is ever missing. -/
theorem replay_error_pointsInto {options : Options} {above : List String}
    (habove : ∀ part ∈ above, part ≠ "" ∧ '.' ∉ part.toList) {d : Table} {r : ObjectRef}
    {m m' : Model} {e : Error}
    (h : (replay host options (".".intercalate above) d r).Raises m e m') :
    ((∃ message, e = .host message) ∨ e.PointsInto above d) ∧ ∀ path, e ≠ .missingValue path := by
  have herror := replay_error (fun P hP => host_obeys (fun _ _ => trivial) hP)
    (fun hraises => ⟨_, (host_maybeCreate_raises hraises).2.1⟩) h
  rw [Scope.pathParts_intercalate habove] at herror
  rcases herror with ⟨message, rfl⟩ | ⟨hpoints, hmissing⟩
  · exact ⟨.inl ⟨message, rfl⟩, fun path heq => by cases heq⟩
  · exact ⟨.inr hpoints, hmissing⟩

/-- The second of two files is no path. -/
def brokenFilesTable : Table :=
  [("buildTypes", .table [
    ("debug", .table [("proguardFiles", .array [.string "rules.pro", .integer 1])])])]

/-- A new application refuses the second file, and says which one. -/
theorem replay_error_pointsInto_item :
    ∃ m', (replay host ⟨.lenient, ⟨"/"⟩⟩ (".".intercalate ["android"]) brokenFilesTable
        (Ref.mk 0 : Ref ApplicationExtension).object).Raises
          (ApplicationExtension.create ⟨"/"⟩ .empty).2
          (.unsupportedCoercion "android.buildTypes.debug.proguardFiles[1]" "File" "integer 1") m' ∧
      Error.PointsInto ["android"] brokenFilesTable
        (.unsupportedCoercion "android.buildTypes.debug.proguardFiles[1]" "File" "integer 1") :=
  have hraises : (replay host ⟨.lenient, ⟨"/"⟩⟩ (".".intercalate ["android"]) brokenFilesTable
      (Ref.mk 0 : Ref ApplicationExtension).object).Raises
        (ApplicationExtension.create ⟨"/"⟩ .empty).2 _ _ := rfl
  ⟨_, hraises, (replay_error_pointsInto (by decide) hraises).1.resolve_left nofun⟩

end BuildReplay.Android
