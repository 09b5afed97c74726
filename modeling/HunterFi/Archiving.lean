import HunterFi.Segments
import HunterFi.Sequences

/-!
# Archiving

`archive_old_deployment_records` sorts the completed records by their last update and removes
those whose place is below the excess or that are older than the retention period. Both tests
pick beginnings of the sorted list, so what is removed is one too (`recordsToArchive_eq`), and
what is left is the rest of it (`completed_archived_perm`). `archives_exactly` collects what
follows from this.
-/

set_option linter.unusedSectionVars false

namespace HunterFi

namespace Factory

variable (f : Factory) (env : Env)

/-! ## The records that are removed -/

/-- A completed record, as the code tests it. -/
def isCompleted (r : DeploymentRecord) : Bool :=
  r.status = .deployed || r.status = .refunded

/-- The stored completed records. -/
def completed : List DeploymentRecord :=
  f.deploymentRecords.vals.filter isCompleted

/-- The completed records, oldest first. -/
def completedSorted : List DeploymentRecord :=
  (f.getAllDeploymentRecords.filter isCompleted).mergeSort fun a b => a.lastUpdated ≤ b.lastUpdated

/-- A record is older than the retention period. -/
def isExpired (r : DeploymentRecord) : Bool :=
  r.lastUpdated < env.time - retentionPeriodNs

/-- How many records the two tests pick. -/
def archivedCount : ℕ :=
  max (f.completed.length - maxCompletedRecords) (f.completed.countP (isExpired env))

/-- Sorting loses no record. -/
theorem completedSorted_perm : f.completedSorted.Perm f.completed :=
  (List.mergeSort_perm _ _).trans ((List.mergeSort_perm _ _).filter _)

theorem length_completedSorted : f.completedSorted.length = f.completed.length :=
  f.completedSorted_perm.length_eq

theorem completedSorted_pairwise :
    f.completedSorted.Pairwise fun a b => a.lastUpdated ≤ b.lastUpdated := by
  have h : f.completedSorted.Pairwise fun a b => decide (a.lastUpdated ≤ b.lastUpdated) = true :=
    List.pairwise_mergeSort (fun a b c => by simpa using le_trans)
      (fun a b => by simpa using le_total a.lastUpdated b.lastUpdated) _
  exact h.imp of_decide_eq_true

/-- A record that is older than an expired one is expired. -/
theorem isExpired_of_le {a b : DeploymentRecord} (h : a.lastUpdated ≤ b.lastUpdated)
    (hb : isExpired env b = true) : isExpired env a = true := by
  simp only [isExpired, decide_eq_true_eq] at hb ⊢
  omega

/-- No more are archived than are completed. -/
theorem archivedCount_le : f.archivedCount env ≤ f.completed.length :=
  Nat.max_le.2 ⟨Nat.sub_le _ _, List.countP_le_length⟩

/-- The records that are removed are the first ones. -/
theorem recordsToArchive_eq : f.recordsToArchive env =
    (f.completedSorted.take (f.archivedCount env)).map DeploymentRecord.deploymentId := by
  have hcount : f.completedSorted.countP (isExpired env) = f.completed.countP (isExpired env) :=
    f.completedSorted_perm.countP_eq _
  have hexcess : min (f.completedSorted.length - maxCompletedRecords) f.completedSorted.length =
      f.completed.length - maxCompletedRecords := by
    rw [length_completedSorted]
    omega
  have htake := Sequences.filter_zipIdx_eq_take (q := isExpired env)
    (f.completedSorted_pairwise.imp fun h => isExpired_of_le env h)
    (f.completedSorted.length - maxCompletedRecords)
  rw [hcount, hexcess] at htake
  rw [archivedCount, ← htake, List.map_map]
  rfl

theorem nodup_completed : (f.completed.map DeploymentRecord.deploymentId).Nodup :=
  f.deploymentRecords.nodup.sublist (List.filter_sublist.map _)

theorem nodup_completedSorted : (f.completedSorted.map DeploymentRecord.deploymentId).Nodup :=
  (f.completedSorted_perm.map _).nodup_iff.2 f.nodup_completed

/-! ## What is left -/

theorem vals_foldl_erase (ids : List String) :
    ∀ m : KeyedMap DeploymentRecord.deploymentId,
      (ids.foldl KeyedMap.erase m).vals = m.vals.filter fun r => r.deploymentId ∉ ids := by
  induction ids with
  | nil => simp
  | cons id ids ih =>
    intro m
    rw [List.foldl_cons, ih, KeyedMap.vals_erase, List.filter_filter]
    refine List.filter_congr fun r _ => ?_
    simp [Bool.and_comm]

/-- The state after archiving. -/
def archived : Factory :=
  (f.archiveOldDeploymentRecords env).2

theorem deploymentRecords_archived : (f.archived env).deploymentRecords =
    (f.recordsToArchive env).foldl KeyedMap.erase f.deploymentRecords := by
  rw [archived, archiveOldDeploymentRecords, foldl_archiveRecord]

/-- Exactly the records to archive are gone. -/
theorem getDeploymentRecord_archived (id : String) : (f.archived env).getDeploymentRecord id =
    if id ∈ f.recordsToArchive env then none else f.getDeploymentRecord id := by
  rw [getDeploymentRecord, deploymentRecords_archived, get?_foldl_erase]
  rfl

/-- What is left of the completed records is the rest of them. -/
theorem completed_archived_perm :
    (f.archived env).completed.Perm (f.completedSorted.drop (f.archivedCount env)) := by
  rw [← Sequences.filter_notMem_take f.nodup_completedSorted, ← recordsToArchive_eq, completed,
    deploymentRecords_archived, vals_foldl_erase, List.filter_filter]
  refine List.Perm.trans ?_ (f.completedSorted_perm.symm.filter _)
  rw [completed, List.filter_filter]
  exact (List.filter_congr fun r _ => Bool.and_comm _ _) ▸ List.Perm.refl _

/-- The count that is returned counts the ids under which a record is found. -/
theorem archiveRecord_count (ids : List String) :
    ∀ {count : ℕ} {f : Factory}, ids.Nodup → (∀ id ∈ ids, (f.getDeploymentRecord id).isSome) →
      (ids.foldl archiveRecord (count, f)).1 = count + ids.length := by
  induction ids with
  | nil => exact fun _ _ => rfl
  | cons id ids ih =>
    intro count f hnodup h
    rw [List.nodup_cons] at hnodup
    obtain ⟨hid, hids⟩ := List.forall_mem_cons.1 h
    have hid : (f.deploymentRecords.get? id).isSome = true := hid
    rw [List.foldl_cons, archiveRecord, if_pos hid, ih hnodup.2, List.length_cons]
    · omega
    · intro id' hid'
      have hne : id' ≠ id := fun heq => hnodup.1 (heq ▸ hid')
      rw [getDeploymentRecord, KeyedMap.get?_erase, if_neg hne]
      exact hids id' hid'

/-- As many as are counted. -/
theorem length_recordsToArchive : (f.recordsToArchive env).length = f.archivedCount env := by
  rw [recordsToArchive_eq, List.length_map, List.length_take, length_completedSorted]
  exact Nat.min_eq_left (f.archivedCount_le env)

/-- None is archived twice. -/
theorem nodup_recordsToArchive : (f.recordsToArchive env).Nodup := by
  rw [recordsToArchive_eq, List.map_take]
  exact f.nodup_completedSorted.sublist (List.take_sublist _ _)

/-- The number that is returned. -/
theorem archive_fst : (f.archiveOldDeploymentRecords env).1 = f.archivedCount env := by
  rw [archiveOldDeploymentRecords, archiveRecord_count _ (f.nodup_recordsToArchive env),
    length_recordsToArchive, Nat.zero_add]
  · intro id hid
    obtain ⟨r, hr, -⟩ := completed_of_mem_recordsToArchive hid
    rw [hr]
    rfl

/-- The completed records are the stored ones in a status that completes. -/
theorem mem_completed {r : DeploymentRecord} :
    r ∈ f.completed ↔ f.getDeploymentRecord r.deploymentId = some r ∧ isCompleted r = true := by
  rw [completed, List.mem_filter, KeyedMap.mem_vals]
  rfl

/-! ## The two parts -/

/-- The stored records that archiving removes. -/
def removed : List DeploymentRecord :=
  f.deploymentRecords.vals.filter fun r =>
    ((f.archived env).getDeploymentRecord r.deploymentId).isNone

/-- The records removed are the stored ones that are to be archived. -/
theorem mem_removed {r : DeploymentRecord} : r ∈ f.removed env ↔
    f.getDeploymentRecord r.deploymentId = some r ∧ r.deploymentId ∈ f.recordsToArchive env := by
  rw [removed, List.mem_filter, KeyedMap.mem_vals, getDeploymentRecord_archived]
  refine and_congr_right fun hr => ?_
  split_ifs with h
  · simp [h]
  · simp [h, getDeploymentRecord, hr]

/-- A removed record is one of the first ones. -/
theorem mem_take_of_mem_removed {r : DeploymentRecord} (h : r ∈ f.removed env) :
    r ∈ f.completedSorted.take (f.archivedCount env) := by
  obtain ⟨hr, hid⟩ := (f.mem_removed env).1 h
  rw [recordsToArchive_eq] at hid
  obtain ⟨r', hr', heq⟩ := List.mem_map.1 hid
  have hstored := ((f.mem_completed).1
    ((f.completedSorted_perm.mem_iff).1 (List.mem_of_mem_take hr'))).1
  rw [heq, hr] at hstored
  exact Option.some.inj hstored ▸ hr'

theorem length_removed : (f.removed env).length = f.archivedCount env := by
  have hperm : ((f.removed env).map DeploymentRecord.deploymentId).Perm
      (f.recordsToArchive env) := by
    refine (List.perm_ext_iff_of_nodup ?_ ?_).2 fun id => ?_
    · exact f.deploymentRecords.nodup.sublist (List.filter_sublist.map _)
    · exact f.nodup_recordsToArchive env
    · rw [List.mem_map]
      constructor
      · rintro ⟨r, hr, rfl⟩
        exact ((f.mem_removed env).1 hr).2
      · intro hid
        obtain ⟨r, hr, -⟩ := completed_of_mem_recordsToArchive hid
        obtain rfl := deploymentId_of_getDeploymentRecord hr
        exact ⟨r, (f.mem_removed env).2 ⟨hr, hid⟩, rfl⟩
  rw [← List.length_map (f := DeploymentRecord.deploymentId), hperm.length_eq,
    f.length_recordsToArchive env]

/-- No record that is left is expired. -/
theorem not_expired_of_mem_archived {r : DeploymentRecord} (h : r ∈ (f.archived env).completed) :
    isExpired env r = false := by
  have hdrop := (f.completed_archived_perm env).mem_iff.1 h
  by_contra hexpired
  have hexpired := Bool.eq_true_of_not_eq_false hexpired
  -- the expired records are all among those removed
  have hfilter := Sequences.filter_eq_take (p := isExpired env)
    (f.completedSorted_pairwise.imp fun h => isExpired_of_le env h)
  rw [f.completedSorted_perm.countP_eq] at hfilter
  have htake : r ∈ f.completedSorted.take (f.archivedCount env) := by
    have hmem := List.mem_filter.2 ⟨List.mem_of_mem_drop hdrop, hexpired⟩
    rw [hfilter] at hmem
    exact (List.take_subset_take_left _ (Nat.le_max_right _ _)) hmem
  exact Sequences.pairwise_take_drop f.nodup_completedSorted.of_map _ r htake r hdrop rfl

/-- What is left is within the limit. -/
theorem length_completed_archived :
    (f.archived env).completed.length ≤ maxCompletedRecords := by
  have hle : f.completed.length - maxCompletedRecords ≤ f.archivedCount env :=
    Nat.le_max_left _ _
  rw [(f.completed_archived_perm env).length_eq, List.length_drop, length_completedSorted]
  omega

/-- A removed record is at most as recent as one that is left. -/
theorem lastUpdated_le_of_removed {r r' : DeploymentRecord} (h : r ∈ f.removed env)
    (h' : r' ∈ (f.archived env).completed) : r.lastUpdated ≤ r'.lastUpdated := by
  exact Sequences.pairwise_take_drop f.completedSorted_pairwise _ r
    (f.mem_take_of_mem_removed env h) r' ((f.completed_archived_perm env).mem_iff.1 h')

/-- After archiving there is nothing to archive at the same time. -/
theorem archive_archived {env' : Env} (ht : env'.time = env.time) :
    (f.archived env).archiveOldDeploymentRecords env' = (0, f.archived env) := by
  have hexpired : (f.archived env).completed.countP (isExpired env') = 0 := by
    refine List.countP_eq_zero.2 fun r hr => ?_
    rw [isExpired, ht]
    simpa [isExpired] using f.not_expired_of_mem_archived env hr
  have hcount : (f.archived env).archivedCount env' = 0 := by
    rw [archivedCount, hexpired, Nat.sub_eq_zero_of_le (f.length_completed_archived env)]
    rfl
  rw [archiveOldDeploymentRecords, recordsToArchive_eq, hcount, List.take_zero]
  rfl

/-! ## The whole -/

/-- What archiving removes and what it leaves. -/
structure ArchivesExactly (f : Factory) (env : Env) : Prop where
  others : ∀ id r, f.getDeploymentRecord id = some r → r.status ≠ .deployed →
    r.status ≠ .refunded → (f.archived env).getDeploymentRecord id = some r
  left : ∀ id r, (f.archived env).getDeploymentRecord id = some r →
    f.getDeploymentRecord id = some r
  atMost : (f.archived env).completed.length ≤ maxCompletedRecords
  recent : ∀ r ∈ (f.archived env).completed, env.time - retentionPeriodNs ≤ r.lastUpdated
  oldestFirst : ∀ r ∈ f.removed env, ∀ r' ∈ (f.archived env).completed,
    r.lastUpdated ≤ r'.lastUpdated
  number : (f.removed env).length = max (f.completed.length - maxCompletedRecords)
    (f.completed.countP fun r => r.lastUpdated < env.time - retentionPeriodNs)
  returned : (f.archiveOldDeploymentRecords env).1 = (f.removed env).length
  again : ∀ env' : Env, env'.time = env.time →
    (f.archived env).archiveOldDeploymentRecords env' = (0, f.archived env)

/-- Archiving removes exactly the completed records in excess and those that are too old. -/
theorem archives_exactly (f : Factory) (env : Env) : ArchivesExactly f env where
  others := fun id r hr h1 h2 => by
    rw [getDeploymentRecord_archived, if_neg, hr]
    intro hid
    obtain ⟨r', hr', hc⟩ := completed_of_mem_recordsToArchive hid
    obtain rfl := Option.some.inj (hr.symm.trans hr')
    exact hc.elim h1 h2
  left := fun id r hr => by
    rw [getDeploymentRecord_archived] at hr
    split_ifs at hr
    exact hr
  atMost := f.length_completed_archived env
  recent := fun r hr => by
    simpa [isExpired] using f.not_expired_of_mem_archived env hr
  oldestFirst := fun r hr r' hr' => f.lastUpdated_le_of_removed env hr hr'
  number := f.length_removed env
  returned := by rw [archive_fst, length_removed]
  again := fun env' ht => f.archive_archived env ht

end Factory

end HunterFi
