import PecsRegistry.Directory.DiskWrites
import PecsRegistry.Foundations.InstanceJson
import PecsRegistry.Machinery.Volume

/-!
# Directory/DiskIsolation — the snapshot files of two services

`persist_to_disk` and `load_from_disk` join a service's name, whatever characters it has, to the
cache directory.  Slashes and dots in a name are taken for directories, so a snapshot may be written
outside the cache directory, or over another service's.  `snapshots_isolated_iff` says for which
volumes and names neither happens; names without a slash are safe in a cache directory that exists
(`isolated_of_plain`).

A file holds a JSON value, or bytes that are none.  Left out are links to files, and a
`create_dir_all` on a path that ends in a dot segment.
-/

namespace PecsRegistry

open Paths

namespace DiskFiles

variable {v : Volume (Option Json)} {dir a b : String} {pid : ℕ} {loc : ℕ × List Char}

/-! ## Files -/

def snapshotFile (dir svcName : String) : List Char := join dir.toList (filePath svcName).toList

def temporaryFile (dir svcName : String) (pid : ℕ) : List Char :=
  join dir.toList (tmpPath svcName pid).toList

/-- `persist_to_disk`, where the list is encoded as `j`; and the places it has written. -/
def persistToDisk (v : Volume (Option Json)) (dir svcName : String) (pid : ℕ) (j : Json) :
    Volume (Option Json) × List (ℕ × List Char) :=
  match v.createDirAll dir.toList with
  | (made, none) => (made, [])
  | (made, some _) =>
    match made.write (temporaryFile dir svcName pid) (some j) with
    | none => (made, [])
    | some written =>
      match written.renameFile (temporaryFile dir svcName pid) (snapshotFile dir svcName) with
      | none => (written, (made.locate (temporaryFile dir svcName pid)).toList)
      | some renamed => (renamed, (made.locate (temporaryFile dir svcName pid)).toList
          ++ (made.locate (snapshotFile dir svcName)).toList)

def loadFromDisk (v : Volume (Option Json)) (dir svcName : String) :
    Option (List ServiceInstance) :=
  ((v.read (snapshotFile dir svcName)).bind id).bind deserializeList

/-- **Isolation of two services**: whatever is persisted for the first, it is written within the
cache directory, and what is loaded for the second stays the same. -/
def Isolated (v : Volume (Option Json)) (dir a b : String) (pid : ℕ) : Prop :=
  ∀ instances j, SerializesList instances j →
    (∀ loc ∈ (persistToDisk v dir a pid j).2, ∃ d, (v.createDirAll dir.toList).2 = some d
      ∧ (persistToDisk v dir a pid j).1.Below d loc.1)
    ∧ loadFromDisk (persistToDisk v dir a pid j).1 dir b = loadFromDisk v dir b

/-! ## The conditions -/

/-- The volume once the cache directory has been made. -/
def made (v : Volume (Option Json)) (dir : String) : Volume (Option Json) :=
  (v.createDirAll dir.toList).1

/-- The temporary file of a service can be written, at `loc`. -/
def WritesAt (v : Volume (Option Json)) (dir svcName : String) (pid : ℕ) (loc : ℕ × List Char) :
    Prop :=
  (v.createDirAll dir.toList).2.isSome
    ∧ (made v dir).locate (temporaryFile dir svcName pid) = some loc ∧ ¬ (made v dir).IsDir loc

/-- Where the first service's files can be written, that is within the cache directory. -/
def Confined (v : Volume (Option Json)) (dir a : String) (pid : ℕ) : Prop :=
  ∀ d loc, (v.createDirAll dir.toList).2 = some d → WritesAt v dir a pid loc →
    (made v dir).Below d loc.1

/-- Where the first service's snapshot can be written, the second's is elsewhere. -/
def Apart (v : Volume (Option Json)) (dir a b : String) (pid : ℕ) : Prop :=
  ∀ loc, (∃ tmp, WritesAt v dir a pid tmp) →
    (made v dir).locate (snapshotFile dir a) = some loc → ¬ (made v dir).IsDir loc →
    (made v dir).locate (snapshotFile dir b) ≠ some loc

/-- Where there is nothing to load for the second service, making the cache directory does not bring
anything within reach. -/
def Unopened (v : Volume (Option Json)) (dir b : String) : Prop :=
  loadFromDisk v dir b = none → loadFromDisk (made v dir) dir b = none

/-! ## Where the files are -/

theorem jsonSuffix_plain : '/' ∉ ".json".toList ∧ nul ∉ ".json".toList
    ∧ 2 < ".json".toList.length := by decide

theorem notMem_tmpSuffix {c : Char} (hc : c.isDigit = false) (htmp : c ∉ ".tmp.".toList)
    (pid : ℕ) : c ∉ (".tmp." ++ toString pid).toList := by
  rw [String.toList_append, List.mem_append, not_or]
  exact ⟨htmp, notMem_toString hc pid⟩

theorem tmpSuffix_plain (pid : ℕ) : '/' ∉ (".tmp." ++ toString pid).toList
    ∧ nul ∉ (".tmp." ++ toString pid).toList ∧ 2 < (".tmp." ++ toString pid).toList.length := by
  refine ⟨notMem_tmpSuffix (by decide) (by decide) pid,
    notMem_tmpSuffix (by decide) (by decide) pid, ?_⟩
  rw [String.toList_append, List.length_append, show ".tmp.".toList.length = 5 from rfl]
  omega

/-- A snapshot file is where the name leads, under the name's last component. -/
theorem locate_snapshotFile (v : Volume (Option Json)) (dir svcName : String) :
    v.locate (snapshotFile dir svcName) = (v.container (join dir.toList svcName.toList)).map
      fun d => (d, baseName (join dir.toList svcName.toList) ++ ".json".toList) := by
  obtain ⟨hslash, hnul, hlength⟩ := jsonSuffix_plain
  rw [snapshotFile, filePath, String.toList_append, join_append (by decide),
    Volume.locate_append hslash hnul hlength]

theorem locate_temporaryFile (v : Volume (Option Json)) (dir svcName : String) (pid : ℕ) :
    v.locate (temporaryFile dir svcName pid)
      = (v.container (join dir.toList svcName.toList)).map
        fun d => (d, baseName (join dir.toList svcName.toList)
          ++ (".tmp." ++ toString pid).toList) := by
  obtain ⟨hslash, hnul, hlength⟩ := tmpSuffix_plain pid
  rw [temporaryFile, tmpPath, String.toList_append, join_append (fun h => hslash
    (List.mem_of_head? h)), Volume.locate_append hslash hnul hlength]

/-- No snapshot file has the name of a temporary file: the last characters differ. -/
theorem json_ne_tmp (name name' : List Char) (pid : ℕ) :
    name ++ ".json".toList ≠ name' ++ (".tmp." ++ toString pid).toList := by
  intro h
  have hlast : (name' ++ (".tmp." ++ toString pid).toList).getLast? = some 'n' := by
    rw [← h, List.getLast?_append]
    rfl
  obtain ⟨c, hc⟩ : ∃ c, (".tmp." ++ toString pid).toList.getLast? = some c := by
    rw [← Option.isSome_iff_exists, List.getLast?_isSome]
    intro hnil
    have hlength := (tmpSuffix_plain pid).2.2
    rw [hnil] at hlength
    exact absurd hlength (by decide)
  rw [List.getLast?_append, hc] at hlast
  obtain rfl : c = 'n' := Option.some.inj hlast
  exact notMem_tmpSuffix (by decide) (by decide) pid (List.mem_of_getLast? hc)

/-! ## What a persist does -/

/-- Nothing is written. -/
theorem persistToDisk_of_not_writesAt {j : Json} (h : ∀ loc, ¬ WritesAt v dir a pid loc) :
    persistToDisk v dir a pid j = (made v dir, []) := by
  rw [persistToDisk]
  rcases hmade : v.createDirAll dir.toList with ⟨v', _ | d⟩
  · rw [made, hmade]
  · have hmade' : made v dir = v' := by rw [made, hmade]
    have hnone : v'.write (temporaryFile dir a pid) (some j) = none := by
      rcases hloc : v'.locate (temporaryFile dir a pid) with - | loc
      · rw [Volume.write, hloc, Option.bind_none]
      · refine Volume.write_of_isDir hloc (by_contra fun hdir => h loc ⟨?_, ?_, ?_⟩) _
        · rw [hmade, Option.isSome_some]
        · rw [hmade', hloc]
        · rwa [hmade']
    simp only [hnone, hmade']

/-- **Both files are written in one directory**: the temporary file, and the snapshot unless a
directory has its name.  Of the files with the name of a snapshot it alone changes. -/
theorem persistToDisk_of_writesAt {tmp : ℕ × List Char} (h : WritesAt v dir a pid tmp) (j : Json) :
    ∃ loc, (made v dir).locate (snapshotFile dir a) = some loc
      ∧ Volume.SameWays (made v dir) (persistToDisk v dir a pid j).1
      ∧ (∀ d name, (persistToDisk v dir a pid j).1.fileAt (d, name ++ ".json".toList)
        = if (d, name ++ ".json".toList) = loc ∧ ¬ (made v dir).IsDir loc then some (some j)
          else (made v dir).fileAt (d, name ++ ".json".toList))
      ∧ tmp ∈ (persistToDisk v dir a pid j).2
      ∧ ∀ l ∈ (persistToDisk v dir a pid j).2, l.1 = tmp.1 := by
  obtain ⟨hmade, htmp, hdir⟩ := h
  obtain ⟨root, hroot⟩ := Option.isSome_iff_exists.mp hmade
  have hcreate : v.createDirAll dir.toList = (made v dir, some root) := Prod.ext rfl hroot
  obtain ⟨d, hcontainer, rfl⟩ := Option.map_eq_some_iff.mp
    ((locate_temporaryFile (made v dir) dir a pid).symm.trans htmp)
  have hloc := locate_snapshotFile (made v dir) dir a
  rw [hcontainer, Option.map_some] at hloc
  have hother : ∀ d' name, (d', name ++ ".json".toList)
      ≠ (d, baseName (join dir.toList a.toList) ++ (".tmp." ++ toString pid).toList) :=
    fun d' name heq => json_ne_tmp _ _ pid (congrArg Prod.snd heq)
  obtain ⟨written, hwritten⟩ := Volume.exists_write htmp hdir (some j)
  obtain ⟨loc, hloc', hways, hfiles⟩ := Volume.write_eq_some hwritten
  obtain rfl := Option.some.inj (htmp.symm.trans hloc')
  have hfile := (hfiles _).trans (if_pos rfl)
  refine ⟨_, hloc, ?_⟩
  rw [persistToDisk, hcreate]
  simp only [hwritten]
  have hsome := Volume.isSome_renameFile ((hways.locate _).trans htmp) ((hways.locate _).trans hloc)
    hfile
  rw [hways.isDir] at hsome
  rcases hrename : written.renameFile (temporaryFile dir a pid) (snapshotFile dir a) with - | after
  · -- a directory has the name: the temporary file stays
    rw [hrename] at hsome
    have hdir' := not_not.mp (hsome.not.mp (by simp))
    refine ⟨hways, fun d' name => ?_, by simp [htmp], by simp [htmp]⟩
    rw [if_neg fun h => h.2 hdir']
    exact (hfiles _).trans (if_neg (hother d' name))
  · rw [hrename] at hsome
    have hdir' := hsome.mp rfl
    obtain ⟨src, dst, content, hsrc, hdst, hcontent, hways', hfiles'⟩ :=
      Volume.renameFile_eq_some hrename
    obtain rfl := Option.some.inj (((hways.locate _).trans htmp).symm.trans hsrc)
    obtain rfl := Option.some.inj (((hways.locate _).trans hloc).symm.trans hdst)
    obtain rfl := Option.some.inj (hfile.symm.trans hcontent)
    refine ⟨hways.trans hways', fun d' name => ?_, by simp [htmp], by simp [htmp, hloc]⟩
    rw [hfiles', if_neg (hother d' name), hfiles, if_neg (hother d' name)]
    simp only [hdir', not_false_eq_true, and_true]

/-- What is loaded for a service afterwards: the list persisted, if the snapshot files are one. -/
theorem loadFromDisk_persistToDisk {tmp : ℕ × List Char} (h : WritesAt v dir a pid tmp)
    (hloc : (made v dir).locate (snapshotFile dir a) = some loc) (j : Json) (b : String) :
    loadFromDisk (persistToDisk v dir a pid j).1 dir b
      = if (made v dir).locate (snapshotFile dir b) = some loc ∧ ¬ (made v dir).IsDir loc
        then deserializeList j else loadFromDisk (made v dir) dir b := by
  obtain ⟨loc', hloc', hways, hfiles, -, -⟩ := persistToDisk_of_writesAt h j
  obtain rfl := Option.some.inj (hloc.symm.trans hloc')
  rw [loadFromDisk, loadFromDisk, Volume.read, Volume.read, hways.locate, locate_snapshotFile]
  rcases (made v dir).container (join dir.toList b.toList) with - | d
  · rfl
  · simp only [Option.map_some, Option.bind_some, hfiles, Option.some_inj]
    split_ifs <;> rfl

/-! ## Isolation -/

/-- Making the cache directory keeps what can be loaded. -/
theorem loadFromDisk_made {instances : List ServiceInstance}
    (h : loadFromDisk v dir b = some instances) :
    loadFromDisk (made v dir) dir b = some instances := by
  obtain ⟨j, hj, hinstances⟩ := Option.bind_eq_some_iff.mp h
  obtain ⟨content, hread, rfl⟩ := Option.bind_eq_some_iff.mp hj
  have hmade : (made v dir).read (snapshotFile dir b) = some (some j) :=
    (Volume.extends_createDirAll v dir.toList).read hread
  rw [loadFromDisk, hmade]
  exact hinstances

theorem Unopened.loadFromDisk_eq (h : Unopened v dir b) :
    loadFromDisk (made v dir) dir b = loadFromDisk v dir b := by
  rcases hload : loadFromDisk v dir b with - | instances
  · exact h hload
  · exact loadFromDisk_made hload

/-- No list is all that there is to persist. -/
theorem exists_ne_some (o : Option (List ServiceInstance)) :
    ∃ instances j, SerializesList instances j ∧ some instances ≠ o := by
  by_cases ho : o = some []
  · obtain ⟨j, hj⟩ := exists_serializesList [ServiceInstance.simple "order-svc" "127.0.0.1" 8080]
    exact ⟨_, j, hj, by simp [ho]⟩
  · obtain ⟨j, hj⟩ := exists_serializesList []
    exact ⟨[], j, hj, Ne.symm ho⟩

theorem isolated_of_apart (hconfined : Confined v dir a pid) (hapart : Apart v dir a b pid)
    (hunopened : Unopened v dir b) : Isolated v dir a b pid := by
  intro instances j hj
  by_cases hwrites : ∃ tmp, WritesAt v dir a pid tmp
  · obtain ⟨tmp, htmp⟩ := hwrites
    obtain ⟨loc, hloc, hways, -, -, hall⟩ := persistToDisk_of_writesAt htmp j
    refine ⟨fun l hl => ?_, ?_⟩
    · obtain ⟨d, hd⟩ := Option.isSome_iff_exists.mp htmp.1
      refine ⟨d, hd, ?_⟩
      rw [hways.below, hall l hl]
      exact hconfined d tmp hd htmp
    · rw [loadFromDisk_persistToDisk htmp hloc,
        if_neg fun hboth => hapart loc ⟨tmp, htmp⟩ hloc hboth.2 hboth.1]
      exact hunopened.loadFromDisk_eq
  · rw [persistToDisk_of_not_writesAt (not_exists.mp hwrites)]
    exact ⟨fun l hl => absurd hl (by simp), hunopened.loadFromDisk_eq⟩

/-- **Two services are isolated, exactly**, if the first's files are confined to the cache
directory, the second's snapshot is another file, and making the cache directory does not bring one
within reach; on volumes without links to files, and with a cache path that ends in no dot
segment. -/
theorem snapshots_isolated_iff (v : Volume (Option Json)) (dir a b : String) (pid : ℕ) :
    Isolated v dir a b pid ↔ Confined v dir a pid ∧ Apart v dir a b pid ∧ Unopened v dir b := by
  constructor
  · intro h
    have hapart : Apart v dir a b pid := by
      rintro loc ⟨tmp, htmp⟩ hloc hdir hb
      obtain ⟨instances, j, hj, hne⟩ := exists_ne_some (loadFromDisk v dir b)
      have hload := (h instances j hj).2
      rw [loadFromDisk_persistToDisk htmp hloc, if_pos ⟨hb, hdir⟩,
        deserializeList_of_serializes hj] at hload
      exact hne hload
    obtain ⟨j, hj⟩ := exists_serializesList []
    obtain ⟨hinside, hload⟩ := h [] j hj
    refine ⟨fun d tmp hd htmp => ?_, hapart, fun hnone => ?_⟩
    · obtain ⟨loc, -, hways, -, hmem, -⟩ := persistToDisk_of_writesAt htmp j
      obtain ⟨d', hd', hbelow⟩ := hinside tmp hmem
      obtain rfl := Option.some.inj (hd.symm.trans hd')
      rwa [hways.below] at hbelow
    · by_cases hwrites : ∃ tmp, WritesAt v dir a pid tmp
      · obtain ⟨tmp, htmp⟩ := hwrites
        obtain ⟨loc, hloc, -⟩ := persistToDisk_of_writesAt htmp j
        rw [loadFromDisk_persistToDisk htmp hloc,
          if_neg fun hboth => hapart loc ⟨tmp, htmp⟩ hloc hboth.2 hboth.1] at hload
        exact hload.trans hnone
      · rw [persistToDisk_of_not_writesAt (not_exists.mp hwrites)] at hload
        exact hload.trans hnone
  · rintro ⟨hconfined, hapart, hunopened⟩
    exact isolated_of_apart hconfined hapart hunopened

/-- A cache directory that exists, and names of one component. -/
theorem isolated_of_plain {d : ℕ} (hdir : v.folder dir.toList = some d) (ha : '/' ∉ a.toList)
    (hb : '/' ∉ b.toList) (hne : a ≠ b) (pid : ℕ) : Isolated v dir a b pid := by
  have hmade : made v dir = v := by rw [made, Volume.createDirAll_of_folder hdir]
  have hsnapshot : ∀ svcName : String, '/' ∉ svcName.toList → ∀ loc,
      v.locate (snapshotFile dir svcName) = some loc →
      loc = (d, svcName.toList ++ ".json".toList) := fun svcName hslash loc hloc => by
    rw [locate_snapshotFile, baseName_join hslash] at hloc
    obtain ⟨d', hd', rfl⟩ := Option.map_eq_some_iff.mp hloc
    rw [Option.some.inj ((Volume.folder_of_container hslash hd').symm.trans hdir)]
  refine isolated_of_apart (fun root tmp hroot htmp => ?_) (fun loc _ hloc _ hb' => hne ?_)
    fun hnone => by rwa [hmade]
  · have htmp' := htmp.2.1
    rw [hmade, locate_temporaryFile] at htmp'
    obtain ⟨d', hd', rfl⟩ := Option.map_eq_some_iff.mp htmp'
    rw [Volume.createDirAll_of_folder (Volume.folder_of_container ha hd')] at hroot
    obtain rfl := Option.some.inj hroot
    exact Relation.ReflTransGen.refl
  · rw [hmade] at hloc hb'
    have hname := congrArg Prod.snd
      ((hsnapshot a ha loc hloc).symm.trans (hsnapshot b hb loc hb'))
    exact String.toList_inj.mp (List.append_cancel_right hname)

/-- **A name with a dot segment aliases another service's snapshot.** -/
theorem snapshot_aliased : ¬ ∀ (v : Volume (Option Json)) (dir a b : String) (pid : ℕ), a ≠ b →
    Isolated v dir a b pid := by
  intro h
  have hload := (h (.empty _) ".registry_cache" "./order-svc" "order-svc" 1 (by decide) [] (.arr [])
    ⟨[], rfl, .nil⟩).2
  exact absurd hload (by decide +kernel)

end DiskFiles

end PecsRegistry
