/-
  FlowHelm.Admin.Ownership — whether names keep two users' containers and archives apart.

  A user name may hold the dash that ends it in a name: what begins with "flowhelm-agent-bob-"
  may be an agent of bob or of bob-smith.

  - `names_separate`: they are apart just if none of the other's names begins with the user's
    and a dash.
  - `apart_of_no_prefix`: they are where neither name begins with the other and a dash.
-/
import FlowHelm.Admin.BackupFiles
import FlowHelm.Admin.SubIds
import FlowHelm.Container.Lifecycle

namespace FlowHelm.Admin

open Js Container

variable {u v : JsString}

/-- What the manager of `u` stops and removes, and what is listed for `u`, is not of `v`. -/
structure Separate (u v : JsString) (drainTimeout : Nat) (host : Host) (getTime : DateFields → Int)
    (dir : Option BackupDir) : Prop where
  stopped : ∀ c ∈ host.containers, c.owner = v → ¬Touches (stop u drainTimeout host.entries) c
  cleaned : ∀ c ∈ host.containers, c.owner = v → ¬Touches (cleanupOrphans u host.entries) c
  listed : ∀ bs, listBackups getTime dir u = some bs → ∀ b ∈ bs, ∀ now, b.filename ≠ archiveName v now

/-- No name of an agent or an archive of `v` begins as one of `u`; for the archives, it may
    also be that what is listed for `u` has a file without a date. -/
structure Apart (u v : JsString) (host : Host) (dir : Option BackupDir) : Prop where
  agents : ∀ c ∈ host.containers, c.owner = v → ∀ taskId, c.kind = .agent taskId → ¬u ++ dash <+: v ++ dash ++ taskId
  archives : ∀ d, dir = some d → Undated d u ∨
    ∀ now, archiveName v now ∈ d.files → d.size (archiveName v now) ≠ none →
      ¬u ++ dash <+: v ++ dash ++ formatTimestamp now ++ archiveSuffix

theorem listed_archive_iff {dir : BackupDir} {now : WallTime} :
    Listed dir u (archiveName v now) ↔ archiveName v now ∈ dir.files ∧ dir.size (archiveName v now) ≠ none ∧
      u ++ dash <+: v ++ dash ++ formatTimestamp now ++ archiveSuffix := by
  have hbegins : archivePrefix u <+: archiveName v now ↔ u ++ dash <+: v ++ dash ++ formatTimestamp now ++ archiveSuffix := by
    simp only [archivePrefix, archiveName, dash, List.append_assoc, List.prefix_append_right_inj]
  constructor
  · rintro ⟨hpresent, hprefix, -, hstat⟩
    exact ⟨hpresent, hstat, hbegins.mp hprefix⟩
  · rintro ⟨hpresent, hstat, hprefix⟩
    exact ⟨hpresent, hbegins.mpr hprefix, List.suffix_append _ _, hstat⟩

theorem overlaps_iff (huv : u ≠ v) {c : UserContainer} (hc : c.owner = v) :
    Overlaps u c.owner c.kind ↔ ∃ taskId, c.kind = .agent taskId ∧ u ++ dash <+: v ++ dash ++ taskId := by
  subst hc
  cases hkind : c.kind with
  | agent taskId => simp [Overlaps]
  | proxy => simp [Overlaps, huv.symm]
  | channel => simp [Overlaps, huv.symm]
  | service => simp [Overlaps, huv.symm]

theorem listed_separate_iff (getTime : DateFields → Int) (d : BackupDir) :
    (∀ bs, listBackups getTime (some d) u = some bs → ∀ b ∈ bs, ∀ now, b.filename ≠ archiveName v now) ↔
      Undated d u ∨ ∀ now, ¬Listed d u (archiveName v now) := by
  rcases listBackups_spec getTime d u with ⟨hundated, hnone⟩ | ⟨hdated, bs, hsome, hbs⟩
  · simp [hundated, hnone]
  · rw [or_iff_right hdated, hsome]
    constructor
    · intro h now hlisted
      obtain ⟨b, hb, heq⟩ := (hbs _).mpr hlisted
      exact h bs rfl b hb now heq
    · rintro h _ ⟨⟩ b hb now heq
      exact h now ((hbs _).mp ⟨b, hb, heq⟩)

theorem names_separate (huv : u ≠ v) (drainTimeout : Nat) (host : Host) (getTime : DateFields → Int) (dir : Option BackupDir) :
    Separate u v drainTimeout host getTime dir ↔ Apart u v host dir := by
  constructor
  · rintro ⟨hstopped, -, hlisted⟩
    refine ⟨fun c hc howner taskId hkind hprefix => ?_, fun d hd => ?_⟩
    · refine hstopped c hc howner ((stop_overlaps hc u drainTimeout).mpr ?_)
      exact (overlaps_iff huv howner).mpr ⟨taskId, hkind, hprefix⟩
    · subst hd
      refine ((listed_separate_iff getTime d).mp hlisted).imp_right fun h now hpresent hstat hprefix => ?_
      exact h now (listed_archive_iff.mpr ⟨hpresent, hstat, hprefix⟩)
  · rintro ⟨hagents, harchives⟩
    have hnone : ∀ c ∈ host.containers, c.owner = v → ¬Overlaps u c.owner c.kind := by
      intro c hc howner hoverlaps
      obtain ⟨taskId, hkind, hprefix⟩ := (overlaps_iff huv howner).mp hoverlaps
      exact hagents c hc howner taskId hkind hprefix
    refine ⟨fun c hc howner h => ?_, fun c hc howner h => ?_, ?_⟩
    · exact hnone c hc howner ((stop_overlaps hc u drainTimeout).mp h)
    · exact hnone c hc howner (cleanupOrphans_overlaps hc h)
    · cases dir with
      | none =>
        rintro _ ⟨⟩ b hb
        cases hb
      | some d =>
        refine (listed_separate_iff getTime d).mpr ((harchives d rfl).imp_right fun h now hlisted => ?_)
        obtain ⟨hpresent, hstat, hprefix⟩ := listed_archive_iff.mp hlisted
        exact h now hpresent hstat hprefix

/-! ## Two users that are not apart -/

def agentOf (owner taskId : JsString) : UserContainer where
  owner := owner
  kind := .agent taskId
  entry := ⟨some (ofString "1f"), none, some (agentContainer owner taskId), none, some (ofString "running"), none⟩
  named := rfl

theorem a_neighbours_agent_is_stopped : ∃ u v host, validateName u = none ∧ validateName v = none ∧ u ≠ v ∧
    ∀ drainTimeout getTime dir, ¬Separate u v drainTimeout host getTime dir := by
  refine ⟨ofString "bob", ofString "bob-smith",
    ⟨[agentOf (ofString "bob-smith") (ofString "0a1b2c3d4e5f")], List.nodup_singleton _⟩,
    by decide, by decide, by decide, fun drainTimeout getTime dir h => ?_⟩
  refine h.stopped _ (.head _) rfl ((stop_overlaps (.head _) _ drainTimeout).mpr ?_)
  exact ⟨ofString "smith-0a1b2c3d4e5f", by decide⟩

/-! ## Users that are -/

theorem prefix_of_overlap {x : JsString} (huv : u ≠ v) (h : u ++ dash <+: v ++ dash ++ x) :
    u ++ dash <+: v ∨ v ++ dash <+: u := by
  have hu : u <+: v ++ dash ++ x := (List.prefix_append u dash).trans h
  have hlength : ∀ w : JsString, (w ++ dash).length = w.length + 1 := fun w => List.length_append
  rcases Nat.lt_trichotomy u.length v.length with hlt | heq | hlt
  · have hv : v <+: v ++ dash ++ x := List.append_assoc v dash x ▸ List.prefix_append v _
    exact .inl (List.prefix_of_prefix_length_le h hv (by rw [hlength]; exact hlt))
  · have hv : v <+: v ++ dash ++ x := List.append_assoc v dash x ▸ List.prefix_append v _
    exact absurd ((List.prefix_of_prefix_length_le hu hv heq.le).eq_of_length heq) huv
  · exact .inr (List.prefix_of_prefix_length_le (List.prefix_append _ x) hu (by rw [hlength]; exact hlt))

theorem apart_of_no_prefix (huv : u ≠ v) (hu : ¬u ++ dash <+: v) (hv : ¬v ++ dash <+: u) (host : Host) (dir : Option BackupDir) :
    Apart u v host dir := by
  have hnone : ∀ x, ¬u ++ dash <+: v ++ dash ++ x := fun x h => (prefix_of_overlap huv h).elim hu hv
  refine ⟨fun _ _ _ taskId _ => hnone taskId, fun _ _ => .inr fun now _ _ => ?_⟩
  rw [List.append_assoc _ _ archiveSuffix]
  exact hnone _

theorem bob_and_ann_are_apart : validateName (ofString "bob") = none ∧ validateName (ofString "ann") = none ∧
    Separate (ofString "bob") (ofString "ann") 15 ⟨[agentOf (ofString "ann") (ofString "0a1b2c3d4e5f")], List.nodup_singleton _⟩
      (fun _ => 0) none := by
  refine ⟨by decide, by decide, (names_separate (by decide) _ _ _ _).mpr ?_⟩
  exact apart_of_no_prefix (by decide) (by decide) (by decide) _ _

end FlowHelm.Admin
