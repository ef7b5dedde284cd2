import Mathlib.Data.List.DropRight

/-!
# Machinery/Paths — path strings

A path is a string of components separated by slashes: what stands behind the last slash is its
`baseName`, what stands before it, with the slash, its `dirName`.
-/

namespace Paths

/-! ## Names built of parts -/

/-- What is put together around a separator comes apart at the last one. -/
theorem append_cons_inj {α : Type*} {a : α} {l l' r r' : List α} (hr : a ∉ r) (hr' : a ∉ r') :
    l ++ a :: r = l' ++ a :: r' ↔ l = l' ∧ r = r' := by
  constructor
  · intro h
    rcases List.append_eq_append_iff.mp h with ⟨m, rfl, hm⟩ | ⟨m, rfl, hm⟩ <;> cases m with
    | nil => simpa [eq_comm] using hm
    | cons b m =>
      obtain ⟨-, rfl⟩ := List.cons.inj hm
      simp at hr hr'
  · rintro ⟨rfl, rfl⟩
    rfl

/-- …and at the first one, where neither first part has it. -/
theorem cons_inj_first {α : Type*} {a : α} {l l' r r' : List α} (hl : a ∉ l) (hl' : a ∉ l')
    (h : l ++ a :: r = l' ++ a :: r') : l = l' ∧ r = r' := by
  rw [← List.reverse_inj] at h
  simp only [List.reverse_append, List.reverse_cons, List.append_assoc, List.singleton_append] at h
  obtain ⟨hr, hl⟩ := (append_cons_inj (by rwa [List.mem_reverse]) (by rwa [List.mem_reverse])).mp h
  exact ⟨List.reverse_inj.mp hl, List.reverse_inj.mp hr⟩

/-- A directory is on the way to an entry of another if and only if it is that directory, or is on
the way to what that directory is in. -/
theorem prefix_entry_iff {parent parent' name name' leaf : List Char} (hname : '/' ∉ name)
    (hname' : '/' ∉ name') (hleaf : '/' ∉ leaf) :
    parent ++ '/' :: (name ++ ['/']) <+: parent' ++ '/' :: (name' ++ '/' :: leaf)
      ↔ (parent = parent' ∧ name = name')
        ∨ parent ++ '/' :: (name ++ ['/']) <+: parent' ++ ['/'] := by
  have hsplit : ∀ l : List Char, parent' ++ '/' :: l = parent' ++ ['/'] ++ l := by simp
  constructor
  · intro h
    rw [hsplit] at h
    rcases List.prefix_or_prefix_of_prefix h (List.prefix_append _ _) with hshort | ⟨rest, hrest⟩
    · exact .inr hshort
    · -- what reaches beyond the other parent ends at the one slash there
      rw [← hrest, List.prefix_append_right_inj] at h
      obtain ⟨t, ht⟩ := h
      cases rest using List.reverseRecOn with
      | nil =>
        exact .inr ⟨[], by rw [← hrest, List.append_nil, List.append_nil]⟩
      | append_singleton q c =>
        left
        have hends : parent' ++ '/' :: q ++ [c] = parent ++ '/' :: name ++ ['/'] := by
          simpa using hrest
        obtain ⟨hsame, hc⟩ := List.append_inj' hends rfl
        obtain rfl := (List.cons.inj hc).1
        rw [List.append_assoc, List.singleton_append] at ht
        have hcount := congrArg (List.count '/') ht
        rw [List.count_append, List.count_append, List.count_cons_self, List.count_cons_self,
          List.count_eq_zero_of_not_mem hname', List.count_eq_zero_of_not_mem hleaf] at hcount
        have htail : '/' ∉ t := List.count_eq_zero.mp (by omega)
        obtain ⟨rfl, -⟩ := (append_cons_inj htail hleaf).mp ht
        obtain ⟨rfl, rfl⟩ := (append_cons_inj hname' hname).mp hsame
        exact ⟨rfl, rfl⟩
  · rintro (⟨rfl, rfl⟩ | h)
    · exact ⟨leaf, by simp⟩
    · rw [hsplit]
      exact h.trans (List.prefix_append _ _)

/-- The text of a number consists of digits. -/
theorem notMem_toString {c : Char} (hc : c.isDigit = false) (n : ℕ) : c ∉ (toString n).toList := by
  rw [Nat.toString_eq_repr, Nat.toList_repr]
  intro hmem
  rw [Nat.isDigit_of_mem_toDigits (by decide) (by decide) hmem] at hc
  cases hc

theorem toString_inj {n m : ℕ} : toString n = toString m ↔ n = m := by
  constructor
  · intro h
    have hdigits := congrArg String.toList h
    rw [Nat.toString_eq_repr, Nat.toString_eq_repr, Nat.toList_repr, Nat.toList_repr] at hdigits
    rw [← Nat.ofDigitChars_ten_toDigits (n := n), hdigits, Nat.ofDigitChars_ten_toDigits]
  · rintro rfl
    rfl

/-! ## The last component -/

/-- What stands behind the last slash. -/
def baseName (path : List Char) : List Char := path.rtakeWhile (· ≠ '/')

/-- The rest, up to the last slash and with it. -/
def dirName (path : List Char) : List Char := path.rdropWhile (· ≠ '/')

theorem dirName_append_baseName (path : List Char) : dirName path ++ baseName path = path :=
  List.rdropWhile_append_rtakeWhile

theorem slash_notMem_baseName (path : List Char) : '/' ∉ baseName path := fun h => by
  simpa using List.mem_rtakeWhile_imp h

/-- What is appended without a slash is appended to the last component. -/
theorem baseName_append {suffix : List Char} (h : '/' ∉ suffix) (path : List Char) :
    baseName (path ++ suffix) = baseName path ++ suffix := by
  induction suffix using List.reverseRecOn with
  | nil => rw [List.append_nil, List.append_nil]
  | append_singleton suffix c ih =>
    obtain ⟨hsuffix, hc⟩ := not_or.mp fun hor => h (List.mem_append.mpr hor)
    rw [← List.append_assoc, baseName, List.rtakeWhile_concat_pos, ← baseName, ih hsuffix,
      List.append_assoc]
    exact decide_eq_true fun heq => hc (List.mem_singleton.mpr heq.symm)

theorem dirName_append {suffix : List Char} (h : '/' ∉ suffix) (path : List Char) :
    dirName (path ++ suffix) = dirName path := by
  have hsplit := dirName_append_baseName (path ++ suffix)
  rw [baseName_append h, ← List.append_assoc, List.append_cancel_right_eq] at hsplit
  exact List.append_cancel_right (hsplit.trans (dirName_append_baseName path).symm)

/-- A slash starts the last component anew. -/
theorem baseName_append_slash (path rest : List Char) :
    baseName (path ++ '/' :: rest) = baseName rest := by
  induction rest using List.reverseRecOn with
  | nil => exact List.rtakeWhile_concat_neg _ _ _ (by simp)
  | append_singleton rest c ih =>
    rw [baseName, baseName, ← List.cons_append, ← List.append_assoc, List.rtakeWhile_concat,
      List.rtakeWhile_concat, ← baseName, ← baseName, ih]

theorem baseName_eq_self_iff {path : List Char} : baseName path = path ↔ '/' ∉ path := by
  rw [baseName, List.rtakeWhile_eq_self_iff]
  constructor
  · intro h hslash
    simpa using h _ hslash
  · intro h c hc
    exact decide_eq_true fun heq => h (heq ▸ hc)

theorem dirName_append_slash {rest : List Char} (h : '/' ∉ rest) (path : List Char) :
    dirName (path ++ '/' :: rest) = path ++ ['/'] := by
  have hsplit : dirName (path ++ '/' :: rest) ++ baseName (path ++ '/' :: rest)
      = (path ++ ['/']) ++ rest := (dirName_append_baseName _).trans (by simp)
  rw [baseName_append_slash, baseName_eq_self_iff.mpr h] at hsplit
  exact List.append_cancel_right hsplit

/-! ## Joined paths -/

/-- `Path::join`: an absolute path replaces the directory. -/
def join (dir path : List Char) : List Char :=
  if path.head? = some '/' then path
  else if dir = [] ∨ dir.getLast? = some '/' then dir ++ path
  else dir ++ '/' :: path

/-- What is appended to the path is appended to the joined path. -/
theorem join_append {suffix : List Char} (h : suffix.head? ≠ some '/') (dir path : List Char) :
    join dir (path ++ suffix) = join dir path ++ suffix := by
  have hhead : (path ++ suffix).head? = some '/' ↔ path.head? = some '/' := by
    cases path <;> simp [h]
  simp only [join, hhead]
  split_ifs <;> simp

theorem mem_join {c : Char} {path : List Char} (h : c ∈ path) (dir : List Char) :
    c ∈ join dir path := by
  rw [join]
  split_ifs <;> simp [h]

/-- A single component is the last one of the joined path. -/
theorem baseName_join {path : List Char} (h : '/' ∉ path) (dir : List Char) :
    baseName (join dir path) = path := by
  rw [join, if_neg fun hhead => h (List.mem_of_head? hhead)]
  split_ifs with hdir
  · rcases hdir with rfl | hlast
    · exact baseName_eq_self_iff.mpr h
    · obtain ⟨dir, rfl⟩ := List.getLast?_eq_some_iff.mp hlast
      rw [List.append_assoc, List.singleton_append, baseName_append_slash,
        baseName_eq_self_iff.mpr h]
  · rw [baseName_append_slash, baseName_eq_self_iff.mpr h]

end Paths
