import PecsRegistry.Foundations.Instance
import PecsRegistry.Machinery.Files
import PecsRegistry.Machinery.Transition

/-!
# Directory/DiskWrites — the bytes of a disk snapshot while its tasks write

A spawned `persist_to_disk` task opens the temporary file, writes the serialised list through its
own handle, and renames the file to `{service}.json`.  All tasks of a process have one temporary
path, so a task may truncate the file another is about to rename, or rename one another is still
writing to.  Where neither happens the snapshot is never torn: `never_torn`.
-/

namespace PecsRegistry

open Files Transition

/-- Where a spawned task stands: before it opens the temporary file, or with a handle and the bytes
left to write, or done. -/
inductive PersistTask
  | idle
  | spawned (instances : List ServiceInstance)
  | writing (a offset : ℕ) (rest : List UInt8)
  | finished
deriving DecidableEq

/-- The directory's files, the tasks spawned for a service, and the lists passed to them. -/
structure DiskCache where
  files : FileSystem String
  tasks : ℕ → PersistTask
  passed : List (List ServiceInstance)

/-- `persist_to_disk` spawns a task; a task opens the temporary file, writes the next `n` bytes, or
renames the file. -/
inductive DiskLabel
  | persistToDisk (i : ℕ) (instances : List ServiceInstance)
  | openTmp (i : ℕ)
  | write (i n : ℕ)
  | rename (i : ℕ)

/-- The file of a service's snapshot, and where it is written before. -/
def filePath (svcName : String) : String := svcName ++ ".json"

def tmpPath (svcName : String) (pid : ℕ) : String := svcName ++ (".tmp." ++ toString pid)

theorem filePath_ne_tmpPath (svcName : String) (pid : ℕ) :
    filePath svcName ≠ tmpPath svcName pid := by
  intro h
  have hlist := congrArg String.toList h
  simp only [filePath, tmpPath, String.toList_append, List.append_cancel_left_eq] at hlist
  cases congrArg (·[1]?) hlist

namespace DiskCache

variable (serialize : List ServiceInstance → List UInt8) (svcName : String) (pid : ℕ)

@[simps]
def setTask (s : DiskCache) (i : ℕ) (t : PersistTask) : DiskCache :=
  { s with tasks := Function.update s.tasks i t }

/-- One step of the `persist_to_disk` tasks for a service. -/
def step (s : DiskCache) : DiskLabel → Option DiskCache
  | .persistToDisk i instances =>
      match s.tasks i with
      | .idle =>
          some ({ s with passed := s.passed ++ [instances] }.setTask i (.spawned instances))
      | _ => none
  | .openTmp i =>
      match s.tasks i with
      | .spawned instances =>
          some ({ s with files := s.files.openTruncate (tmpPath svcName pid) }.setTask i
            (.writing (s.files.opened (tmpPath svcName pid)) 0 (serialize instances)))
      | _ => none
  | .write i n =>
      match s.tasks i with
      | .writing a offset rest =>
          if 0 < n ∧ n ≤ rest.length then
            some ({ s with files := s.files.write a offset (rest.take n) }.setTask i
              (.writing a (offset + n) (rest.drop n)))
          else none
      | _ => none
  | .rename i =>
      match s.tasks i with
      | .writing _ _ [] =>
          -- a rename that fails leaves the files as they are
          some ({ s with
            files := (s.files.rename (tmpPath svcName pid) (filePath svcName)).getD s.files
            }.setTask i .finished)
      | _ => none

variable {serialize svcName pid} {s s' : DiskCache} {l : DiskLabel} {w : List DiskLabel} {a b : ℕ}

/-- The bytes are the complete serialisation of a list passed to `persist_to_disk`. -/
def Serialised (serialize : List ServiceInstance → List UInt8) (s : DiskCache)
    (bytes : List UInt8) : Prop :=
  ∃ instances ∈ s.passed, bytes = serialize instances

/-- The file at a path, if it exists, is complete. -/
def Complete (serialize : List ServiceInstance → List UInt8) (path : String) (s : DiskCache) :
    Prop :=
  ∀ a, s.files.inode path = some a → s.Serialised serialize (s.files.bytes a)

/-- The task has bytes left to write to the file `a`. -/
def WritesTo (s : DiskCache) (a i : ℕ) : Prop :=
  ∃ offset rest, s.tasks i = .writing a offset rest ∧ rest ≠ []

/-- The temporary file is opened, and renamed, only while no task is still writing to it. -/
def Undisturbed (svcName : String) (pid : ℕ) (s : DiskCache) : DiskLabel → Prop
  | .openTmp _ | .rename _ =>
      ∀ a, s.files.inode (tmpPath svcName pid) = some a → ∀ i, ¬ s.WritesTo a i
  | _ => True

/-! ## What holds while no task is disturbed -/

/-- One task at most is writing: it writes to the temporary file, which holds what it has written.
Otherwise the temporary file is complete, once a task has opened it.  The snapshot always is. -/
structure Sound (serialize : List ServiceInstance → List UInt8) (svcName : String) (pid : ℕ)
    (s : DiskCache) : Prop where
  spawned : ∀ i instances, s.tasks i = .spawned instances → instances ∈ s.passed
  writer : ∀ i a offset rest, s.tasks i = .writing a offset rest → rest ≠ [] →
    s.files.inode (tmpPath svcName pid) = some a ∧ offset = (s.files.bytes a).length
      ∧ s.Serialised serialize (s.files.bytes a ++ rest)
  alone : ∀ i j a b, s.WritesTo a i → s.WritesTo b j → i = j
  temporary : ∀ i a offset rest, s.tasks i = .writing a offset rest →
    (∃ b j, s.WritesTo b j) ∨ s.Complete serialize (tmpPath svcName pid)
  snapshot : s.Complete serialize (filePath svcName)

/-- Where nobody writes to the temporary file nobody writes at all. -/
theorem Sound.not_writesTo (h : Sound serialize svcName pid s)
    (hfree : ∀ a, s.files.inode (tmpPath svcName pid) = some a → ∀ i, ¬ s.WritesTo a i) (a i : ℕ) :
    ¬ s.WritesTo a i := by
  rintro ⟨offset, rest, hi, hrest⟩
  exact hfree a (h.writer i a offset rest hi hrest).1 i ⟨offset, rest, hi, hrest⟩

/-- What the tasks other than `i` do is what they did. -/
theorem tasks_setTask_of_ne {i j : ℕ} {t : PersistTask} (hne : j ≠ i) :
    (s.setTask i t).tasks j = s.tasks j := Function.update_of_ne hne _ _

theorem tasks_setTask_self {i : ℕ} {t : PersistTask} : (s.setTask i t).tasks i = t :=
  Function.update_self ..

/-- A task that is in state `t` is not the one that was just put into another. -/
theorem tasks_of_setTask {i j : ℕ} {t t' : PersistTask} (h : (s.setTask i t').tasks j = t)
    (hne : t' ≠ t) : j ≠ i ∧ s.tasks j = t := by
  rcases eq_or_ne j i with rfl | hji
  · exact absurd (tasks_setTask_self.symm.trans h) hne
  · exact ⟨hji, (tasks_setTask_of_ne hji).symm.trans h⟩

/-- A task that writes after a step of the only writer is that writer. -/
theorem only_setTask {i j : ℕ} {t : PersistTask} (honly : ∀ b k, s.WritesTo b k → k = i)
    (hj : (s.setTask i t).WritesTo a j) : j = i := by
  by_contra hji
  obtain ⟨offset, rest, hj, hrest⟩ := hj
  exact hji (honly a j ⟨offset, rest, (tasks_setTask_of_ne hji).symm.trans hj, hrest⟩)

theorem Serialised.snoc {bytes : List UInt8} {instances : List ServiceInstance}
    (h : s.Serialised serialize bytes) :
    { s with passed := s.passed ++ [instances] }.Serialised serialize bytes := by
  obtain ⟨list, hlist, heq⟩ := h
  exact ⟨list, List.mem_append_left _ hlist, heq⟩

theorem Sound.persistToDisk (h : Sound serialize svcName pid s) {i : ℕ}
    {instances : List ServiceInstance} (hidle : s.tasks i = .idle) :
    Sound serialize svcName pid
      ({ s with passed := s.passed ++ [instances] }.setTask i (.spawned instances)) := by
  have hwrites : ∀ a j, ({ s with passed := s.passed ++ [instances] }.setTask i
      (.spawned instances)).WritesTo a j ↔ s.WritesTo a j := by
    intro a j
    refine exists_congr fun offset => exists_congr fun rest => and_congr_left fun _ => ?_
    rcases eq_or_ne j i with rfl | hji
    · rw [tasks_setTask_self, hidle]
      simp
    · rw [tasks_setTask_of_ne hji]
  refine ⟨fun j list hj => ?_, fun j a offset rest hj hrest => ?_, fun j k a b hj hk => ?_,
    fun j a offset rest hj => ?_, fun b hb => (h.snapshot b hb).snoc⟩
  · rcases eq_or_ne j i with rfl | hji
    · obtain rfl := PersistTask.spawned.inj (tasks_setTask_self.symm.trans hj)
      exact List.mem_append_right _ (List.mem_singleton_self _)
    · exact List.mem_append_left _ (h.spawned j list ((tasks_setTask_of_ne hji).symm.trans hj))
  · have hj' := (tasks_of_setTask hj (by simp)).2
    obtain ⟨htmp, hoffset, hbytes⟩ := h.writer j a offset rest hj' hrest
    exact ⟨htmp, hoffset, hbytes.snoc⟩
  · exact h.alone j k a b ((hwrites a j).mp hj) ((hwrites b k).mp hk)
  · rcases h.temporary j a offset rest (tasks_of_setTask hj (by simp)).2 with ⟨b, k, hk⟩ | htmp
    · exact Or.inl ⟨b, k, (hwrites b k).mpr hk⟩
    · exact Or.inr fun b hb => (htmp b hb).snoc

theorem Sound.openTmp (h : Sound serialize svcName pid s) {i : ℕ}
    {instances : List ServiceInstance} (hspawned : s.tasks i = .spawned instances)
    (hfree : ∀ a, s.files.inode (tmpPath svcName pid) = some a → ∀ i, ¬ s.WritesTo a i) :
    Sound serialize svcName pid
      ({ s with files := s.files.openTruncate (tmpPath svcName pid) }.setTask i
        (.writing (s.files.opened (tmpPath svcName pid)) 0 (serialize instances))) := by
  have hnone := h.not_writesTo hfree
  have hmem := h.spawned i instances hspawned
  have hbytes := s.files.bytes_openTruncate (tmpPath svcName pid)
  have htmp := s.files.inode_openTruncate (tmpPath svcName pid)
  have honly : ∀ a j, ({ s with files := s.files.openTruncate (tmpPath svcName pid) }.setTask i
      (.writing (s.files.opened (tmpPath svcName pid)) 0 (serialize instances))).WritesTo a j →
        j = i :=
    fun a j => only_setTask fun b k hk => absurd hk (hnone b k)
  refine ⟨fun j list hj => h.spawned j list (tasks_of_setTask hj (by simp)).2,
    fun j a offset rest hj hrest => ?_, fun j k a b hj hk => ?_, fun _ _ _ _ _ => ?_,
    fun b hb => ?_⟩
  · obtain rfl := honly a j ⟨offset, rest, hj, hrest⟩
    obtain ⟨rfl, rfl, rfl⟩ := PersistTask.writing.inj (tasks_setTask_self.symm.trans hj)
    refine ⟨htmp, by rw [setTask_files, hbytes]; rfl, instances, hmem, ?_⟩
    rw [setTask_files, hbytes, List.nil_append]
  · exact (honly a j hj).trans (honly b k hk).symm
  · rcases eq_or_ne (serialize instances) [] with hempty | hrest
    · refine Or.inr fun b hb => ⟨instances, hmem, ?_⟩
      obtain rfl := Option.some.inj (htmp.symm.trans hb)
      exact hbytes.trans hempty.symm
    · exact Or.inl ⟨_, i, 0, _, tasks_setTask_self, hrest⟩
  · rw [setTask_files, FileSystem.openTruncate_inode,
      Function.update_of_ne (filePath_ne_tmpPath svcName pid)] at hb
    have hb' : b ≠ s.files.opened (tmpPath svcName pid) := by
      rintro rfl
      exact FileSystem.inode_ne_opened (filePath_ne_tmpPath svcName pid) hb
    rw [setTask_files, FileSystem.openTruncate_bytes, Function.update_of_ne hb']
    exact h.snapshot b hb

theorem Sound.write (h : Sound serialize svcName pid s) {i n a offset : ℕ} {rest : List UInt8}
    (hwriting : s.tasks i = .writing a offset rest) (hn : 0 < n ∧ n ≤ rest.length) :
    Sound serialize svcName pid
      ({ s with files := s.files.write a offset (rest.take n) }.setTask i
        (.writing a (offset + n) (rest.drop n))) := by
  have hrest : rest ≠ [] := List.ne_nil_of_length_pos (hn.1.trans_le hn.2)
  have hwrites : s.WritesTo a i := ⟨offset, rest, hwriting, hrest⟩
  obtain ⟨htmp, hoffset, hbytes⟩ := h.writer i a offset rest hwriting hrest
  have hnew : (s.files.write a offset (rest.take n)).bytes a
      = s.files.bytes a ++ rest.take n := by
    rw [FileSystem.write_bytes, Function.update_self, hoffset, overwrite_length]
  have honly : ∀ b j, ({ s with files := s.files.write a offset (rest.take n) }.setTask i
      (.writing a (offset + n) (rest.drop n))).WritesTo b j → j = i :=
    fun b j => only_setTask fun c k hk => h.alone k i c a hk hwrites
  refine ⟨fun j list hj => h.spawned j list (tasks_of_setTask hj (by simp)).2,
    fun j b offset' rest' hj hrest' => ?_, fun j k b c hj hk => ?_, fun _ _ _ _ _ => ?_,
    fun b hb => ?_⟩
  · obtain rfl := honly b j ⟨offset', rest', hj, hrest'⟩
    obtain ⟨rfl, rfl, rfl⟩ := PersistTask.writing.inj (tasks_setTask_self.symm.trans hj)
    refine ⟨htmp, ?_, ?_⟩
    · rw [setTask_files, hnew, List.length_append, List.length_take, min_eq_left hn.2, hoffset]
    · rw [setTask_files, hnew, List.append_assoc, List.take_append_drop]
      exact hbytes
  · exact (honly b j hj).trans (honly c k hk).symm
  · rcases eq_or_ne (rest.drop n) [] with hdone | hleft
    · refine Or.inr fun b hb => ?_
      obtain rfl := Option.some.inj (htmp.symm.trans hb)
      rw [setTask_files, hnew, List.take_of_length_le (List.drop_eq_nil_iff.mp hdone)]
      exact hbytes
    · exact Or.inl ⟨a, i, _, _, tasks_setTask_self, hleft⟩
  · have hb' : b ≠ a := by
      rintro rfl
      exact filePath_ne_tmpPath svcName pid (s.files.inode_inj hb htmp)
    rw [setTask_files, FileSystem.write_bytes, Function.update_of_ne hb']
    exact h.snapshot b hb

theorem Sound.rename (h : Sound serialize svcName pid s) {i a offset : ℕ}
    (hwritten : s.tasks i = .writing a offset [])
    (hfree : ∀ a, s.files.inode (tmpPath svcName pid) = some a → ∀ i, ¬ s.WritesTo a i) :
    Sound serialize svcName pid ({ s with
      files := (s.files.rename (tmpPath svcName pid) (filePath svcName)).getD s.files }.setTask i
        .finished) := by
  have hnone := h.not_writesTo hfree
  have hcomplete : s.Complete serialize (tmpPath svcName pid) :=
    (h.temporary i a offset [] hwritten).resolve_left fun ⟨b, j, hj⟩ => hnone b j hj
  have hnone' : ∀ b j, ¬ ({ s with
      files := (s.files.rename (tmpPath svcName pid) (filePath svcName)).getD s.files }.setTask i
        .finished).WritesTo b j := by
    rintro b j ⟨offset, rest, hj, hrest⟩
    exact hnone b j ⟨offset, rest, (tasks_of_setTask hj (by simp)).2, hrest⟩
  refine ⟨fun j list hj => h.spawned j list (tasks_of_setTask hj (by simp)).2,
    fun j b offset rest hj hrest => absurd ⟨offset, rest, hj, hrest⟩ (hnone' b j),
    fun j k b c hj => absurd hj (hnone' b j), fun _ _ _ _ _ => Or.inr fun b hb => ?_,
    fun b hb => ?_⟩
  all_goals
    rcases htmp : s.files.inode (tmpPath svcName pid) with _ | c
    all_goals rw [setTask_files] at hb ⊢
  · rw [FileSystem.rename_of_none htmp] at hb ⊢
    exact hcomplete b hb
  · rw [FileSystem.rename_of_some htmp, Option.getD_some, FileSystem.move_inode,
      Function.update_of_ne (filePath_ne_tmpPath svcName pid).symm, Function.update_self] at hb
    cases hb
  · rw [FileSystem.rename_of_none htmp] at hb ⊢
    exact h.snapshot b hb
  · rw [FileSystem.rename_of_some htmp, Option.getD_some] at hb ⊢
    rw [FileSystem.move_inode, Function.update_self] at hb
    obtain rfl := Option.some.inj hb
    exact hcomplete c htmp

/-- **No step that disturbs nobody tears the snapshot.** -/
theorem Sound.step (h : Sound serialize svcName pid s) (hl : Undisturbed svcName pid s l)
    (hstep : s.step serialize svcName pid l = some s') : Sound serialize svcName pid s' := by
  revert hstep
  fun_cases DiskCache.step serialize svcName pid s l <;> intro hstep <;>
    simp only [reduceCtorEq, Option.some.injEq] at hstep <;> subst hstep
  case case1 i instances hidle => exact h.persistToDisk hidle
  case case3 i instances hspawned => exact h.openTmp hspawned hl
  case case5 i n a offset rest hwriting hn => exact h.write hwriting hn
  case case8 i a offset hwritten => exact h.rename hwritten hl

/-- **The snapshot is never torn**, in every run whose tasks open and rename the temporary file only
while no task is still writing to it. -/
theorem never_torn (hidle : ∀ i, s.tasks i = .idle)
    (hsnapshot : s.Complete serialize (filePath svcName))
    (hw : EachStep (step serialize svcName pid) (Undisturbed svcName pid) s w) :
    EachState (step serialize svcName pid) (Complete serialize (filePath svcName)) s w := by
  have hsound : Sound serialize svcName pid s := by
    refine ⟨fun i instances hi => ?_, fun i a offset rest hi => ?_, fun i j a b hi => ?_,
      fun i a offset rest hi => ?_, hsnapshot⟩
    · cases (hidle i).symm.trans hi
    · cases (hidle i).symm.trans hi
    · obtain ⟨offset, rest, hi, -⟩ := hi
      cases (hidle i).symm.trans hi
    · cases (hidle i).symm.trans hi
  exact (eachState_of_invariant (fun s l s' h hl hstep => h.step hl hstep) hsound hw).imp
    fun s h => h.snapshot

/-- **A task that runs alone stores its list**: the file is then as after one atomic write. -/
theorem read_alone {i : ℕ} {instances : List ServiceInstance}
    (hspawned : s.tasks i = .spawned instances) (hne : serialize instances ≠ []) :
    ∃ s', run (step serialize svcName pid) s
        [.openTmp i, .write i (serialize instances).length, .rename i] = some s'
      ∧ s'.files.read (filePath svcName) = some (serialize instances) := by
  set tmp := tmpPath svcName pid with htmp
  have hopen : s.step serialize svcName pid (.openTmp i)
      = some ({ s with files := s.files.openTruncate tmp }.setTask i
        (.writing (s.files.opened tmp) 0 (serialize instances))) := by
    rw [step, hspawned]
  have hinode : ((s.files.openTruncate tmp).write (s.files.opened tmp) 0
      (serialize instances)).inode tmp = some (s.files.opened tmp) :=
    s.files.inode_openTruncate tmp
  have hbytes : ((s.files.openTruncate tmp).write (s.files.opened tmp) 0
      (serialize instances)).bytes (s.files.opened tmp) = serialize instances := by
    rw [FileSystem.write_bytes, Function.update_self, FileSystem.bytes_openTruncate]
    exact overwrite_length [] _
  rw [run_cons, hopen, Option.bind_some, run_cons, step, tasks_setTask_self]
  simp only [List.length_pos_iff.mpr hne, le_refl, and_self, if_true, List.take_length,
    List.drop_length, Option.bind_some, run_cons, run_nil, step, tasks_setTask_self]
  refine ⟨_, rfl, ?_⟩
  rw [setTask_files, setTask_files, setTask_files, ← htmp, FileSystem.rename_of_some hinode,
    Option.getD_some, FileSystem.read_move, hbytes]

/-- No files, and no tasks yet. -/
def start : DiskCache := ⟨.empty String, fun _ => .idle, []⟩

theorem complete_start : start.Complete serialize (filePath svcName) := fun _ h => nomatch h

/-- A stand-in for the serialisation: a byte for each instance (the length of its id), in
brackets. -/
def brackets (list : List ServiceInstance) : List UInt8 :=
  0x5b :: list.map (fun inst => UInt8.ofNat inst.serviceId.length) ++ [0x5d]

/-- Two tasks overlap: the second opens the file of the first once that has written its three bytes,
and the first renames it once the second has written its four. -/
def overlapping : List DiskLabel :=
  let one := ServiceInstance.simple "order-svc" "127.0.0.1" 80
  let two := ServiceInstance.simple "order-svc" "127.0.0.1" 81
  [.persistToDisk 0 [one], .persistToDisk 1 [one, two], .openTmp 0, .write 0 2, .write 0 1,
    .openTmp 1, .write 1 1, .write 1 3, .rename 0, .rename 1]

/-- The bytes a task has left to write. -/
def bytesLeft : PersistTask → List UInt8
  | .writing _ _ rest => rest
  | _ => []

theorem not_writesTo_of_bytesLeft {i : ℕ} (h : bytesLeft (s.tasks i) = []) : ¬ s.WritesTo a i := by
  rintro ⟨offset, rest, hi, hrest⟩
  rw [hi] at h
  exact hrest h

theorem undisturbed_overlapping :
    EachStep (step brackets "order-svc" 7) (Undisturbed "order-svc" 7) start overlapping := by
  -- the first task opens
  refine ⟨trivial, fun s₁ h₁ => ⟨trivial, fun s₂ h₂ => ?_⟩⟩
  obtain rfl := Option.some.inj h₁
  obtain rfl := Option.some.inj h₂
  refine ⟨fun a ha i => not_writesTo_of_bytesLeft (by rcases i with _ | _ | i <;> rfl),
    fun s₃ h₃ => ⟨trivial, fun s₄ h₄ => ⟨trivial, fun s₅ h₅ => ?_⟩⟩⟩
  obtain rfl := Option.some.inj h₃
  obtain rfl := Option.some.inj h₄
  obtain rfl := Option.some.inj h₅
  -- the second opens
  refine ⟨fun a ha i => not_writesTo_of_bytesLeft (by rcases i with _ | _ | i <;> rfl),
    fun s₆ h₆ => ⟨trivial, fun s₇ h₇ => ⟨trivial, fun s₈ h₈ => ?_⟩⟩⟩
  obtain rfl := Option.some.inj h₆
  obtain rfl := Option.some.inj h₇
  obtain rfl := Option.some.inj h₈
  -- the first renames, and then the second
  refine ⟨fun a ha i => not_writesTo_of_bytesLeft (by rcases i with _ | _ | i <;> rfl),
    fun s₉ h₉ => ?_⟩
  obtain rfl := Option.some.inj h₉
  exact ⟨fun a ha i => not_writesTo_of_bytesLeft (by rcases i with _ | _ | i <;> rfl),
    fun s h => trivial⟩

/-- `never_torn` for the two. -/
theorem never_torn_overlapping :
    (run (step brackets "order-svc" 7) start overlapping).isSome
      ∧ EachState (step brackets "order-svc" 7) (Complete brackets (filePath "order-svc")) start
        overlapping :=
  ⟨by decide +kernel, never_torn (fun _ => rfl) complete_start undisturbed_overlapping⟩

/-- The second task opens the file when the first has written all its bytes. -/
def truncated : List DiskLabel :=
  [.persistToDisk 0 [], .persistToDisk 1 [], .openTmp 0, .write 0 2, .openTmp 1, .rename 0]

/-- **A torn snapshot.**  The first task renames the file that the second has just truncated: the
snapshot is empty, and not even `[]`. -/
theorem torn_snapshot : ¬ ∀ (serialize : List ServiceInstance → List UInt8) (svcName : String)
    (pid : ℕ) (s s' : DiskCache) (w : List DiskLabel), (∀ i, s.tasks i = .idle) →
    s.Complete serialize (filePath svcName) → run (step serialize svcName pid) s w = some s' →
    s'.Complete serialize (filePath svcName) := by
  intro h
  obtain ⟨s', hrun⟩ : ∃ s', run (step brackets "order-svc" 7) start truncated = some s' := ⟨_, rfl⟩
  have hend := h brackets "order-svc" 7 start s' truncated (fun _ => rfl) complete_start hrun
  obtain rfl := Option.some.inj hrun
  obtain ⟨instances, -, hbytes⟩ := hend 0 rfl
  cases hbytes

end DiskCache

end PecsRegistry
