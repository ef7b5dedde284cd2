import Mathlib.Data.Nat.Init
import Mathlib.Logic.Function.Basic
import Mathlib.Logic.Relation
import PecsRegistry.Machinery.Paths

/-!
# Machinery/Volume — directories, files, and the paths that lead to them

A volume has numbered directories; a name stands, in a directory, for a directory or for a file.  A
directory may stand under several names, as it does where links to directories are followed, and
has one parent.  A path is walked component by component, from the root if it starts with a slash,
and what stands behind its last slash is a name in the directory it has come to (`locate`).

Two facts carry the arguments about paths: making directories takes none of the ways that exist
away (`Extends`), and writing or renaming files leaves all ways as they are (`SameWays`).
-/

namespace Paths

def nul : Char := Char.ofNat 0

/-- What a name stands for. -/
inductive Entry (β : Type*)
  | dir (d : ℕ)
  | file (content : β)

/-- The names in each directory, the parent of each, and where paths start.  Directories that have
not been made yet are empty and stand under no name. -/
structure Volume (β : Type*) where
  entry : ℕ → List Char → Option (Entry β)
  parent : ℕ → ℕ
  root : ℕ
  cwd : ℕ
  next : ℕ
  parent_root : parent root = root
  root_lt : root < next
  cwd_lt : cwd < next
  parent_lt : ∀ {d}, d < next → parent d < next
  entry_lt : ∀ {d name e}, entry d name = some e → d < next
  dir_lt : ∀ {d name d'}, entry d name = some (.dir d') → d' < next

namespace Volume

variable {β : Type*} {v v' : Volume β} {d d' : ℕ} {name : List Char} {path path' : List Char}

/-- A volume with an empty root, where the process is. -/
def empty (β : Type*) : Volume β where
  entry _ _ := none
  parent d := d
  root := 0
  cwd := 0
  next := 1
  parent_root := rfl
  root_lt := Nat.one_pos
  cwd_lt := Nat.one_pos
  parent_lt h := h
  entry_lt h := nomatch h
  dir_lt h := nomatch h

/-! ## Ways -/

/-- The directory under a name. -/
def child (v : Volume β) (d : ℕ) (name : List Char) : Option ℕ :=
  match v.entry d name with
  | some (.dir d') => some d'
  | _ => none

/-- The file under a name. -/
def fileAt (v : Volume β) (loc : ℕ × List Char) : Option β :=
  match v.entry loc.1 loc.2 with
  | some (.file content) => some content
  | _ => none

/-- One component of a path. -/
def enter (v : Volume β) (d : ℕ) (name : List Char) : Option ℕ :=
  if name = [] ∨ name = ['.'] then some d
  else if name = ['.', '.'] then some (v.parent d)
  else v.child d name

def walk (v : Volume β) : ℕ → List (List Char) → Option ℕ
  | d, [] => some d
  | d, name :: names => (v.enter d name).bind fun d' => v.walk d' names

/-- Where a path starts. -/
def start (v : Volume β) (path : List Char) : ℕ := if path.head? = some '/' then v.root else v.cwd

/-- Where a path leads: a directory and a name in it.  A path with a NUL leads nowhere, and neither
does one that ends in a slash or in dots to a name. -/
def locate (v : Volume β) (path : List Char) : Option (ℕ × List Char) :=
  if nul ∈ path ∨ baseName path ∈ [[], ['.'], ['.', '.']] then none
  else (v.walk (v.start path) ((dirName path).splitOn '/')).map fun d => (d, baseName path)

theorem walk_append (d : ℕ) (names names' : List (List Char)) :
    v.walk d (names ++ names') = (v.walk d names).bind fun d' => v.walk d' names' := by
  induction names generalizing d with
  | nil => rfl
  | cons name names ih =>
    rw [List.cons_append, walk, walk, Option.bind_assoc]
    exact congrArg _ (funext ih)

theorem child_eq_some : v.child d name = some d' ↔ v.entry d name = some (.dir d') := by
  rw [child]
  split
  case h_1 e he => simp [he]
  case h_2 hno => exact iff_of_false (by simp) (hno d')

theorem fileAt_eq_some {loc : ℕ × List Char} {content : β} :
    v.fileAt loc = some content ↔ v.entry loc.1 loc.2 = some (.file content) := by
  rw [fileAt]
  split
  case h_1 c hc => simp [hc]
  case h_2 hno => exact iff_of_false (by simp) (hno content)

theorem enter_lt (hd : d < v.next) (h : v.enter d name = some d') : d' < v.next := by
  rw [enter] at h
  split_ifs at h
  · exact Option.some.inj h ▸ hd
  · exact Option.some.inj h ▸ v.parent_lt hd
  · exact v.dir_lt (child_eq_some.mp h)

theorem walk_lt {names : List (List Char)} (hd : d < v.next) (h : v.walk d names = some d') :
    d' < v.next := by
  induction names generalizing d with
  | nil => exact Option.some.inj h ▸ hd
  | cons name names ih =>
    obtain ⟨e, he, hrest⟩ := Option.bind_eq_some_iff.mp h
    exact ih (enter_lt hd he) hrest

theorem start_lt (v : Volume β) (path : List Char) : v.start path < v.next := by
  rw [start]
  split_ifs
  · exact v.root_lt
  · exact v.cwd_lt

theorem locate_lt {loc : ℕ × List Char} (h : v.locate path = some loc) : loc.1 < v.next := by
  rw [locate] at h
  split_ifs at h
  obtain ⟨d, hd, rfl⟩ := Option.map_eq_some_iff.mp h
  exact walk_lt (v.start_lt path) hd

/-- The directory that a path leads to. -/
def folder (v : Volume β) (path : List Char) : Option ℕ :=
  if nul ∈ path then none else v.walk (v.start path) (path.splitOn '/')

/-- The directory in which a path ends. -/
def container (v : Volume β) (path : List Char) : Option ℕ :=
  if nul ∈ path then none else v.walk (v.start path) ((dirName path).splitOn '/')

/-- A suffix to the last component, long enough to tell it from dots, stays in the directory. -/
theorem locate_append {suffix : List Char} (hslash : '/' ∉ suffix) (hnul : nul ∉ suffix)
    (hlength : 2 < suffix.length) (path : List Char) :
    v.locate (path ++ suffix) = (v.container path).map fun d => (d, baseName path ++ suffix) := by
  have hspecial : baseName path ++ suffix ∉ [[], ['.'], ['.', '.']] := by
    intro h
    simp only [List.mem_cons, List.not_mem_nil, or_false] at h
    rcases h with h | h | h <;>
      · have := congrArg List.length h
        simp only [List.length_append, List.length_cons, List.length_nil] at this
        omega
  have hstart : v.start (path ++ suffix) = v.start path := by
    have hhead : suffix.head? ≠ some '/' := fun h => hslash (List.mem_of_head? h)
    cases path <;> simp [start, hhead]
  rw [locate, container, baseName_append hslash, dirName_append hslash, hstart]
  simp only [List.mem_append, hnul, hspecial, or_false]
  split_ifs <;> rfl

theorem start_append {dir : List Char} (h : dir ≠ []) (rest : List Char) :
    v.start (dir ++ rest) = v.start dir := by
  obtain ⟨c, dir, rfl⟩ := List.exists_cons_of_ne_nil h
  rfl

/-- A path with a single component after the directory ends in the directory. -/
theorem container_join {path : List Char} (hslash : '/' ∉ path) (hnul : nul ∉ path)
    (dir : List Char) : v.container (join dir path) = v.folder dir := by
  have hhead : path.head? ≠ some '/' := fun h => hslash (List.mem_of_head? h)
  rw [join, if_neg hhead]
  by_cases hempty : dir = []
  · have hdir : dirName path = [] := by
      have hsplit := dirName_append_baseName path
      rwa [baseName_eq_self_iff.mpr hslash, List.append_left_eq_self] at hsplit
    rw [if_pos (.inl hempty), hempty, List.nil_append, container, folder, hdir]
    simp [hnul, start, hhead]
  · by_cases hlast : dir.getLast? = some '/'
    · obtain ⟨dir, rfl⟩ := List.getLast?_eq_some_iff.mp hlast
      rw [if_pos (.inr hlast), container, folder, start_append hempty, List.append_assoc,
        List.singleton_append, dirName_append_slash hslash]
      simp [hnul]
    · have hstay : ∀ d, v.walk d ((dir ++ ['/']).splitOn '/') = v.walk d (dir.splitOn '/') := by
        intro d
        rw [List.splitOn_append_cons_self, walk_append]
        simp [walk, enter]
      rw [if_neg (by simp [hempty, hlast]), container, folder, start_append hempty,
        dirName_append_slash hslash, hstay]
      simp [hnul, show nul ≠ '/' by decide]

theorem folder_of_container {path : List Char} (hslash : '/' ∉ path) {dir : List Char}
    (h : v.container (join dir path) = some d) : v.folder dir = some d := by
  have hnul : nul ∉ path := fun hmem => by simp [container, mem_join hmem] at h
  rwa [container_join hslash hnul] at h

/-! ## Files -/

/-- What stands under a name becomes a file, or nothing. -/
def setFile (v : Volume β) (loc : ℕ × List Char) (content : Option β) : Volume β where
  entry d name :=
    if (d, name) = loc ∧ d < v.next then content.map .file else v.entry d name
  parent := v.parent
  root := v.root
  cwd := v.cwd
  next := v.next
  parent_root := v.parent_root
  root_lt := v.root_lt
  cwd_lt := v.cwd_lt
  parent_lt := v.parent_lt
  entry_lt h := by
    split_ifs at h with hloc
    · exact hloc.2
    · exact v.entry_lt h
  dir_lt h := by
    split_ifs at h
    · simp at h
    · exact v.dir_lt h

theorem entry_setFile (loc : ℕ × List Char) (content : Option β) (d : ℕ) (name : List Char) :
    (v.setFile loc content).entry d name
      = if (d, name) = loc ∧ d < v.next then content.map .file else v.entry d name := rfl

/-- A directory stands under the name. -/
def IsDir (v : Volume β) (loc : ℕ × List Char) : Prop := (v.child loc.1 loc.2).isSome

instance (v : Volume β) (loc : ℕ × List Char) : Decidable (v.IsDir loc) :=
  inferInstanceAs (Decidable (_ = true))

/-- A file is created or written over. -/
def write (v : Volume β) (path : List Char) (content : β) : Option (Volume β) :=
  (v.locate path).bind fun loc => if v.IsDir loc then none else some (v.setFile loc (some content))

/-- A file moves to another name, and what was there before is gone. -/
def renameFile (v : Volume β) (path path' : List Char) : Option (Volume β) :=
  (v.locate path).bind fun loc => (v.locate path').bind fun loc' =>
    (v.fileAt loc).bind fun content =>
      if v.IsDir loc' then none else some ((v.setFile loc none).setFile loc' (some content))

def read (v : Volume β) (path : List Char) : Option β := (v.locate path).bind v.fileAt

/-! ## Directories -/

/-- A new directory. -/
def mkdir (v : Volume β) (d : ℕ) (name : List Char) (h : d < v.next) : Volume β where
  entry d' name' := if d' = d ∧ name' = name then some (.dir v.next) else v.entry d' name'
  parent := Function.update v.parent v.next d
  root := v.root
  cwd := v.cwd
  next := v.next + 1
  parent_root := by rw [Function.update_of_ne v.root_lt.ne, v.parent_root]
  root_lt := Nat.lt_succ_of_lt v.root_lt
  cwd_lt := Nat.lt_succ_of_lt v.cwd_lt
  parent_lt {e} he := by
    rcases eq_or_ne e v.next with rfl | hne
    · rw [Function.update_self]
      omega
    · rw [Function.update_of_ne hne]
      exact Nat.lt_succ_of_lt (v.parent_lt (by omega))
  entry_lt he := by
    split_ifs at he with hloc
    · omega
    · exact Nat.lt_succ_of_lt (v.entry_lt he)
  dir_lt he := by
    split_ifs at he
    · cases he
      omega
    · exact Nat.lt_succ_of_lt (v.dir_lt he)

theorem entry_mkdir (h : d < v.next) (e : ℕ) (name' : List Char) :
    (v.mkdir d name h).entry e name'
      = if e = d ∧ name' = name then some (.dir v.next) else v.entry e name' := rfl

/-- The missing directories on a way are made; where a file is in the way, the rest is left. -/
def mkdirs (v : Volume β) (d : ℕ) : List (List Char) → Volume β × Option ℕ
  | [] => (v, some d)
  | name :: names =>
    match v.enter d name with
    | some d' => v.mkdirs d' names
    | none =>
      if h : d < v.next ∧ v.entry d name = none then (v.mkdir d name h.1).mkdirs v.next names
      else (v, none)

/-- `create_dir_all`. -/
def createDirAll (v : Volume β) (path : List Char) : Volume β × Option ℕ :=
  if nul ∈ path then (v, none) else v.mkdirs (v.start path) (path.splitOn '/')

/-! ## Files change, ways do not -/

/-- The same ways, whatever files there are. -/
structure SameWays (v v' : Volume β) : Prop where
  child : v'.child = v.child
  parent : v'.parent = v.parent
  root : v'.root = v.root
  cwd : v'.cwd = v.cwd

theorem SameWays.trans {v'' : Volume β} (h : SameWays v v') (h' : SameWays v' v'') :
    SameWays v v'' :=
  ⟨h'.child.trans h.child, h'.parent.trans h.parent, h'.root.trans h.root, h'.cwd.trans h.cwd⟩

theorem SameWays.walk (h : SameWays v v') (d : ℕ) (names : List (List Char)) :
    v'.walk d names = v.walk d names := by
  induction names generalizing d with
  | nil => rfl
  | cons name names ih =>
    have henter : v'.enter d name = v.enter d name := by rw [enter, enter, h.child, h.parent]
    rw [Volume.walk, Volume.walk, henter]
    exact congrArg _ (funext ih)

theorem SameWays.locate (h : SameWays v v') (path : List Char) :
    v'.locate path = v.locate path := by
  rw [Volume.locate, Volume.locate, h.walk, start, start, h.root, h.cwd]

theorem SameWays.isDir (h : SameWays v v') (loc : ℕ × List Char) :
    v'.IsDir loc ↔ v.IsDir loc := by rw [IsDir, IsDir, h.child]

theorem child_setFile {loc : ℕ × List Char} (hdir : ¬ v.IsDir loc) (content : Option β) :
    (v.setFile loc content).child = v.child := by
  funext d name
  by_cases hloc : (d, name) = loc ∧ d < v.next
  · have hnone : v.child d name = none := by
      obtain ⟨rfl, -⟩ := hloc
      simpa [IsDir] using hdir
    rw [hnone, child, entry_setFile, if_pos hloc]
    cases content <;> rfl
  · rw [child, entry_setFile, if_neg hloc]
    rfl

theorem sameWays_setFile {loc : ℕ × List Char} (hdir : ¬ v.IsDir loc) (content : Option β) :
    SameWays v (v.setFile loc content) := ⟨child_setFile hdir content, rfl, rfl, rfl⟩

theorem fileAt_setFile {loc : ℕ × List Char} (hlt : loc.1 < v.next) (content : Option β)
    (loc' : ℕ × List Char) :
    (v.setFile loc content).fileAt loc' = if loc' = loc then content else v.fileAt loc' := by
  rw [fileAt, entry_setFile]
  rcases eq_or_ne loc' loc with rfl | hne
  · rw [if_pos ⟨rfl, hlt⟩, if_pos rfl]
    cases content <;> rfl
  · rw [if_neg fun h => hne h.1, if_neg hne]
    rfl

/-- **A write** reaches the place its path leads to, and no other. -/
theorem write_eq_some {content : β} (h : v.write path content = some v') :
    ∃ loc, v.locate path = some loc ∧ SameWays v v'
      ∧ ∀ loc', v'.fileAt loc' = if loc' = loc then some content else v.fileAt loc' := by
  obtain ⟨loc, hloc, hwrite⟩ := Option.bind_eq_some_iff.mp h
  split_ifs at hwrite with hdir
  obtain rfl := Option.some.inj hwrite
  exact ⟨loc, hloc, sameWays_setFile hdir _, fileAt_setFile (locate_lt hloc) _⟩

theorem exists_write {loc : ℕ × List Char} (hloc : v.locate path = some loc)
    (hdir : ¬ v.IsDir loc) (content : β) : ∃ v', v.write path content = some v' := by
  rw [write, hloc, Option.bind_some, if_neg hdir]
  exact ⟨_, rfl⟩

theorem write_of_isDir {loc : ℕ × List Char} (hloc : v.locate path = some loc) (hdir : v.IsDir loc)
    (content : β) : v.write path content = none := by
  rw [write, hloc, Option.bind_some, if_pos hdir]

/-- **A rename** empties one place and fills another. -/
theorem renameFile_eq_some (h : v.renameFile path path' = some v') :
    ∃ loc loc' content, v.locate path = some loc ∧ v.locate path' = some loc'
      ∧ v.fileAt loc = some content ∧ SameWays v v' ∧ ∀ l, v'.fileAt l
        = if l = loc' then some content else if l = loc then none else v.fileAt l := by
  obtain ⟨loc, hloc, h⟩ := Option.bind_eq_some_iff.mp h
  obtain ⟨loc', hloc', h⟩ := Option.bind_eq_some_iff.mp h
  obtain ⟨content, hcontent, h⟩ := Option.bind_eq_some_iff.mp h
  split_ifs at h with hdir'
  obtain rfl := Option.some.inj h
  have hdir : ¬ v.IsDir loc := by simp [IsDir, child, fileAt_eq_some.mp hcontent]
  have hfirst := sameWays_setFile hdir none
  have hdir'' : ¬ (v.setFile loc none).IsDir loc' := by rwa [IsDir, hfirst.child]
  refine ⟨loc, loc', content, hloc, hloc', hcontent,
    hfirst.trans (sameWays_setFile hdir'' (some content)), fun l => ?_⟩
  have hlt' : loc'.1 < v.next := locate_lt hloc'
  rw [fileAt_setFile (v := v.setFile loc none) hlt', fileAt_setFile (locate_lt hloc)]

theorem isSome_renameFile {loc loc' : ℕ × List Char} {content : β}
    (hloc : v.locate path = some loc) (hloc' : v.locate path' = some loc')
    (hfile : v.fileAt loc = some content) :
    (v.renameFile path path').isSome ↔ ¬ v.IsDir loc' := by
  rw [renameFile, hloc, Option.bind_some, hloc', Option.bind_some, hfile, Option.bind_some]
  split_ifs with hdir <;> simp [hdir]

/-- One directory is within another. -/
def Below (v : Volume β) : ℕ → ℕ → Prop :=
  Relation.ReflTransGen fun d d' => ∃ name, v.child d name = some d'

theorem SameWays.below (h : SameWays v v') : v'.Below = v.Below := by rw [Below, Below, h.child]

/-! ## Directories are made, ways stay -/

/-- Every way there was is still there. -/
structure Extends (v v' : Volume β) : Prop where
  entry : ∀ {d name e}, v.entry d name = some e → v'.entry d name = some e
  parent : ∀ {d}, d < v.next → v'.parent d = v.parent d
  root : v'.root = v.root
  cwd : v'.cwd = v.cwd
  next : v.next ≤ v'.next

theorem Extends.refl (v : Volume β) : Extends v v := ⟨id, fun _ => rfl, rfl, rfl, le_rfl⟩

theorem Extends.trans {v'' : Volume β} (h : Extends v v') (h' : Extends v' v'') :
    Extends v v'' where
  entry he := h'.entry (h.entry he)
  parent hd := (h'.parent (hd.trans_le h.next)).trans (h.parent hd)
  root := h'.root.trans h.root
  cwd := h'.cwd.trans h.cwd
  next := h.next.trans h'.next

theorem Extends.enter (h : Extends v v') (hd : d < v.next) (he : v.enter d name = some d') :
    v'.enter d name = some d' := by
  rw [Volume.enter] at he ⊢
  split_ifs at he ⊢
  · exact he
  · rw [h.parent hd]
    exact he
  · exact child_eq_some.mpr (h.entry (child_eq_some.mp he))

theorem Extends.walk (h : Extends v v') {names : List (List Char)} (hd : d < v.next)
    (hwalk : v.walk d names = some d') : v'.walk d names = some d' := by
  induction names generalizing d with
  | nil => exact hwalk
  | cons name names ih =>
    obtain ⟨e, he, hrest⟩ := Option.bind_eq_some_iff.mp hwalk
    exact Option.bind_eq_some_iff.mpr ⟨e, h.enter hd he, ih (enter_lt hd he) hrest⟩

theorem Extends.locate (h : Extends v v') {loc : ℕ × List Char} (hloc : v.locate path = some loc) :
    v'.locate path = some loc := by
  rw [Volume.locate] at hloc ⊢
  split_ifs at hloc ⊢
  obtain ⟨d, hd, rfl⟩ := Option.map_eq_some_iff.mp hloc
  have hstart : v'.start path = v.start path := by rw [start, start, h.root, h.cwd]
  rw [hstart, h.walk (v.start_lt path) hd]
  rfl

theorem Extends.read (h : Extends v v') {content : β} (hread : v.read path = some content) :
    v'.read path = some content := by
  obtain ⟨loc, hloc, hfile⟩ := Option.bind_eq_some_iff.mp hread
  exact Option.bind_eq_some_iff.mpr ⟨loc, h.locate hloc, fileAt_eq_some.mpr
    (h.entry (fileAt_eq_some.mp hfile))⟩

theorem extends_mkdir (hd : d < v.next) (hnone : v.entry d name = none) :
    Extends v (v.mkdir d name hd) where
  entry {e name' _} he := by
    have hne : ¬ (e = d ∧ name' = name) := by
      rintro ⟨rfl, rfl⟩
      simp [hnone] at he
    rw [entry_mkdir, if_neg hne, he]
  parent he := Function.update_of_ne he.ne _ _
  root := rfl
  cwd := rfl
  next := Nat.le_succ _

/-- **Making directories takes no way away.** -/
theorem extends_mkdirs (v : Volume β) (d : ℕ) (names : List (List Char)) :
    Extends v (v.mkdirs d names).1 := by
  fun_induction mkdirs v d names
  case case1 => exact .refl _
  case case2 ih => exact ih
  case case3 h ih => exact (extends_mkdir h.1 h.2).trans ih
  case case4 => exact .refl _

/-- Where the way exists already nothing is made. -/
theorem mkdirs_of_walk {names : List (List Char)} (h : v.walk d names = some d') :
    v.mkdirs d names = (v, some d') := by
  induction names generalizing d with
  | nil => rw [mkdirs, Option.some.inj h]
  | cons name names ih =>
    obtain ⟨e, he, hrest⟩ := Option.bind_eq_some_iff.mp h
    rw [mkdirs, he]
    exact ih hrest

theorem createDirAll_of_folder (h : v.folder path = some d) :
    v.createDirAll path = (v, some d) := by
  rw [folder] at h
  split_ifs at h with hnul
  rw [createDirAll, if_neg hnul, mkdirs_of_walk h]

theorem extends_createDirAll (v : Volume β) (path : List Char) :
    Extends v (v.createDirAll path).1 := by
  rw [createDirAll]
  split_ifs
  · exact .refl v
  · exact extends_mkdirs v _ _

end Volume

end Paths
