import Mathlib.Data.List.Basic
import Mathlib.Logic.Function.Basic

/-!
# Machinery/Files — files, the paths that name them, and handles

A file system keeps apart what a path names (an inode) and what the inode holds.  A handle belongs
to the inode: what is written through it reaches the file under whichever path the file has been
moved to.

* `openTruncate` — the path's file is emptied, or a new one is created under it;
* `write` — bytes at an offset; what lies between the end of the file and the offset is zero;
* `rename` — the file moves to another path, in one step, and the file it had there is gone.
-/

namespace Files

/-- The bytes of a file after `chunk` is written at `offset`. -/
def overwrite (bytes : List UInt8) (offset : ℕ) (chunk : List UInt8) : List UInt8 :=
  bytes.take offset ++ List.replicate (offset - bytes.length) 0 ++ chunk
    ++ bytes.drop (offset + chunk.length)

/-- Writing at the end appends. -/
theorem overwrite_length (bytes chunk : List UInt8) :
    overwrite bytes bytes.length chunk = bytes ++ chunk := by
  simp [overwrite]

/-- What is in each inode, and which inode each path names: an allotted one, and no other path's. -/
structure FileSystem (π : Type*) where
  bytes : ℕ → List UInt8
  inode : π → Option ℕ
  next : ℕ
  lt_next : ∀ {p a}, inode p = some a → a < next
  inode_inj : ∀ {p q a}, inode p = some a → inode q = some a → p = q

namespace FileSystem

variable {π : Type*} {fs : FileSystem π} {p q : π} {a b : ℕ}

/-- A file system without files. -/
@[simps]
def empty (π : Type*) : FileSystem π where
  bytes _ := []
  inode _ := none
  next := 0
  lt_next h := nomatch h
  inode_inj h := nomatch h

/-- The bytes of the file at a path. -/
def read (fs : FileSystem π) (p : π) : Option (List UInt8) := (fs.inode p).map fs.bytes

/-- Bytes are written through a handle. -/
@[simps]
def write (fs : FileSystem π) (a offset : ℕ) (chunk : List UInt8) : FileSystem π :=
  { fs with bytes := Function.update fs.bytes a (overwrite (fs.bytes a) offset chunk) }

/-- The inode that `openTruncate` gives a handle to. -/
def opened (fs : FileSystem π) (p : π) : ℕ := (fs.inode p).getD fs.next

theorem opened_lt (fs : FileSystem π) (p : π) : fs.opened p < fs.next + 1 := by
  rw [opened]
  rcases h : fs.inode p with _ | a
  · exact Nat.lt_succ_self _
  · exact Nat.lt_succ_of_lt (fs.lt_next h)

/-- The inode opened is no other path's. -/
theorem inode_ne_opened (hne : q ≠ p) : fs.inode q ≠ some (fs.opened p) := by
  intro hq
  rw [opened] at hq
  rcases h : fs.inode p with _ | a
  · rw [h] at hq
    exact absurd (fs.lt_next hq) (Nat.lt_irrefl _)
  · rw [h] at hq
    exact hne (fs.inode_inj hq h)

variable [DecidableEq π]

@[simps]
def openTruncate (fs : FileSystem π) (p : π) : FileSystem π where
  bytes := Function.update fs.bytes (fs.opened p) []
  inode := Function.update fs.inode p (some (fs.opened p))
  next := fs.next + 1
  lt_next {q a} h := by
    rw [Function.update_apply] at h
    split_ifs at h with hq
    · obtain rfl := Option.some.inj h
      exact fs.opened_lt p
    · exact Nat.lt_succ_of_lt (fs.lt_next h)
  inode_inj {q r a} hq hr := by
    rw [Function.update_apply] at hq hr
    split_ifs at hq hr with hqp hrp hrp
    · exact hqp.trans hrp.symm
    · obtain rfl := Option.some.inj hq
      exact absurd hr (inode_ne_opened hrp)
    · obtain rfl := Option.some.inj hr
      exact absurd hq (inode_ne_opened hqp)
    · exact fs.inode_inj hq hr

theorem inode_openTruncate (fs : FileSystem π) (p : π) :
    (fs.openTruncate p).inode p = some (fs.opened p) := Function.update_self ..

theorem bytes_openTruncate (fs : FileSystem π) (p : π) :
    (fs.openTruncate p).bytes (fs.opened p) = [] := Function.update_self ..

/-- The file `a`, which is at `p`, is moved to `q`. -/
@[simps]
def move (fs : FileSystem π) (p q : π) (h : fs.inode p = some a) : FileSystem π where
  bytes := fs.bytes
  inode := Function.update (Function.update fs.inode p none) q (some a)
  next := fs.next
  lt_next {r b} hr := by
    simp only [Function.update_apply] at hr
    split_ifs at hr with hrq
    · obtain rfl := Option.some.inj hr
      exact fs.lt_next h
    · exact fs.lt_next hr
  inode_inj {r r' b} hr hr' := by
    simp only [Function.update_apply] at hr hr'
    split_ifs at hr hr' with hrq hrq' hrp' hrp hrq' hrp'
    all_goals first | exact hrq.trans hrq'.symm | skip
    · obtain rfl := Option.some.inj hr
      exact absurd (fs.inode_inj hr' h) hrp'
    · obtain rfl := Option.some.inj hr'
      exact absurd (fs.inode_inj hr h) hrp
    · exact fs.inode_inj hr hr'

def rename (fs : FileSystem π) (p q : π) : Option (FileSystem π) :=
  match h : fs.inode p with
  | some _ => some (fs.move p q h)
  | none => none

theorem rename_of_some (h : fs.inode p = some a) : fs.rename p q = some (fs.move p q h) := by
  rw [rename]
  split
  next b hb =>
    obtain rfl := Option.some.inj (h.symm.trans hb)
    rfl
  next hnone => cases h.symm.trans hnone

theorem rename_of_none (h : fs.inode p = none) : fs.rename p q = none := by
  rw [rename]
  split
  next b hb => cases h.symm.trans hb
  next => rfl

/-- The file at the old path is now at the new one. -/
theorem read_move (h : fs.inode p = some a) : (fs.move p q h).read q = some (fs.bytes a) := by
  rw [read, move_inode, Function.update_self]
  rfl

end FileSystem

end Files
