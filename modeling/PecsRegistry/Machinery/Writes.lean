import Mathlib.Data.List.Induction
import Mathlib.Logic.Function.Basic

/-!
# Machinery/Writes — a keyed store, its log of writes, and a copy that replays the log

A store is read as a partial map `κ → Option ν`.  A write sets one key, drops one key, or replaces
the whole map; what it does to a key is `Write.effect`, and `replay` folds a log over a map.

A **copy** follows an **origin** through a backlog of writes still to be replayed.  Two facts carry
every convergence argument about such a pair:

* `Absorbed` — the origin already shows the backlog: replaying it on the origin changes nothing.
  It holds of every backlog of the origin's own writes, however old, and makes a fresh listing of
  the origin safe to take while older writes are still in flight.
* `CaughtUp` — replaying the backlog on the copy gives the origin.  Once the backlog is empty the
  two are equal.

Both are facts about one key: writes to other keys do not matter.
-/

namespace Writes

variable {κ ν : Type*} [DecidableEq κ]

/-- One write to a keyed store. -/
inductive Write (κ ν : Type*)
  | put (k : κ) (v : ν)
  | drop (k : κ)
  | reset (m : κ → Option ν)

namespace Write

/-- What a write makes of a key: `none` if it leaves the key alone. -/
def effect : Write κ ν → κ → Option (Option ν)
  | put k v, k' => if k' = k then some (some v) else none
  | drop k, k' => if k' = k then some none else none
  | reset m, k' => some (m k')

/-- The map after a write. -/
def apply (w : Write κ ν) (m : κ → Option ν) : κ → Option ν := fun k => (w.effect k).getD (m k)

/-- A write touches the keys it decides. -/
def Touches (w : Write κ ν) (k : κ) : Prop := (w.effect k).isSome

instance (w : Write κ ν) (k : κ) : Decidable (w.Touches k) :=
  inferInstanceAs (Decidable ((w.effect k).isSome = true))

theorem apply_put (k : κ) (v : ν) (m : κ → Option ν) :
    (put k v).apply m = Function.update m k (some v) := by
  funext k'
  rcases eq_or_ne k' k with rfl | h
  · simp [apply, Write.effect]
  · simp [apply, Write.effect, h]

theorem apply_drop (k : κ) (m : κ → Option ν) :
    (drop k : Write κ ν).apply m = Function.update m k none := by
  funext k'
  rcases eq_or_ne k' k with rfl | h
  · simp [apply, Write.effect]
  · simp [apply, Write.effect, h]

@[simp] theorem apply_reset (m m' : κ → Option ν) : (reset m).apply m' = m := rfl

/-- A key a write does not touch keeps what it holds. -/
theorem apply_of_not_touches {w : Write κ ν} {k : κ} (h : ¬ w.Touches k) (m : κ → Option ν) :
    w.apply m k = m k := by
  have hn : w.effect k = none := by simpa [Touches] using h
  rw [apply, hn, Option.getD_none]

/-- A key a write touches holds the same afterwards, whatever it held before. -/
theorem apply_of_touches {w : Write κ ν} {k : κ} (h : w.Touches k) (m m' : κ → Option ν) :
    w.apply m k = w.apply m' k := by
  obtain ⟨v, hv⟩ := Option.isSome_iff_exists.mp h
  rw [apply, apply, hv, Option.getD_some, Option.getD_some]

end Write

/-! ## Replaying a log -/

/-- The map a log of writes leads to, oldest write first. -/
def replay (ws : List (Write κ ν)) (m : κ → Option ν) : κ → Option ν :=
  ws.foldl (fun m w => w.apply m) m

@[simp] theorem replay_nil (m : κ → Option ν) : replay [] m = m := rfl

@[simp] theorem replay_cons (w : Write κ ν) (ws : List (Write κ ν)) (m : κ → Option ν) :
    replay (w :: ws) m = replay ws (w.apply m) := rfl

theorem replay_append (ws ws' : List (Write κ ν)) (m : κ → Option ν) :
    replay (ws ++ ws') m = replay ws' (replay ws m) := List.foldl_append

theorem replay_snoc (ws : List (Write κ ν)) (w : Write κ ν) (m : κ → Option ν) :
    replay (ws ++ [w]) m = w.apply (replay ws m) := replay_append ws [w] m

/-- **A log is local to the key**: what it makes of a key depends only on what the key held. -/
theorem replay_congr {ws : List (Write κ ν)} {m m' : κ → Option ν} {k : κ} (h : m k = m' k) :
    replay ws m k = replay ws m' k := by
  induction ws generalizing m m' with
  | nil => exact h
  | cons w ws ih =>
    rw [replay_cons, replay_cons]
    exact ih (congrArg (w.effect k).getD h)

/-- A key no write of the log touches keeps what it holds. -/
theorem replay_of_untouched {ws : List (Write κ ν)} {k : κ} (h : ∀ w ∈ ws, ¬ w.Touches k)
    (m : κ → Option ν) : replay ws m k = m k := by
  induction ws generalizing m with
  | nil => rfl
  | cons w ws ih =>
    rw [replay_cons, ih fun w' hw' => h w' (List.mem_cons_of_mem w hw')]
    exact Write.apply_of_not_touches (h w List.mem_cons_self) m

/-- **A key some write of the log touches forgets what it held.** -/
theorem replay_of_touched {ws : List (Write κ ν)} {k : κ} (h : ∃ w ∈ ws, w.Touches k)
    (m m' : κ → Option ν) : replay ws m k = replay ws m' k := by
  induction ws generalizing m m' with
  | nil => exact absurd h (by simp)
  | cons w ws ih =>
    by_cases hws : ∃ w ∈ ws, w.Touches k
    · exact ih hws _ _
    · have hw : w.Touches k := by
        obtain ⟨w', hw', ht⟩ := h
        rcases List.mem_cons.mp hw' with rfl | hmem
        · exact ht
        · exact absurd ⟨w', hmem, ht⟩ hws
      rw [replay_cons, replay_cons]
      exact replay_congr (Write.apply_of_touches hw m m')

/-- Leaving a write out of a log changes nothing at a key, exactly where it does not touch the key,
or a later write does, or it says what the key holds. -/
theorem replay_eq_replay_apply_iff {ws : List (Write κ ν)} {w : Write κ ν} {m : κ → Option ν}
    {k : κ} : replay ws m k = replay ws (w.apply m) k
      ↔ (w.Touches k → (∃ w' ∈ ws, w'.Touches k) ∨ w.effect k = some (m k)) := by
  by_cases hw : w.Touches k
  · by_cases hws : ∃ w' ∈ ws, w'.Touches k
    · exact iff_of_true (replay_of_touched hws _ _) fun _ => .inl hws
    · have huntouched : ∀ w' ∈ ws, ¬ w'.Touches k := by simpa using hws
      obtain ⟨v, hv⟩ := Option.isSome_iff_exists.mp hw
      rw [replay_of_untouched huntouched, replay_of_untouched huntouched, Write.apply, hv,
        Option.getD_some]
      simp [hw, hws, eq_comm]
  · exact iff_of_true (replay_congr (Write.apply_of_not_touches hw m).symm) fun h => absurd h hw

/-- The last word of a log on a key, if it touches the key. -/
def lastWord (ws : List (Write κ ν)) (k : κ) : Option (Option ν) :=
  (ws.filterMap (·.effect k)).getLast?

theorem lastWord_snoc (ws : List (Write κ ν)) (w : Write κ ν) (k : κ) :
    lastWord (ws ++ [w]) k = (w.effect k).or (lastWord ws k) := by
  rw [lastWord, List.filterMap_append, List.getLast?_append, lastWord]
  cases h : w.effect k <;> simp [h]

theorem isSome_lastWord {ws : List (Write κ ν)} {k : κ} :
    (lastWord ws k).isSome ↔ ∃ w ∈ ws, w.Touches k := by
  rw [lastWord, List.getLast?_isSome, ne_eq, List.filterMap_eq_nil_iff]
  simp [Write.Touches, Option.isSome_iff_ne_none]

/-- **The last word decides.** -/
theorem replay_eq_lastWord (ws : List (Write κ ν)) (m : κ → Option ν) (k : κ) :
    replay ws m k = (lastWord ws k).getD (m k) := by
  induction ws using List.reverseRecOn with
  | nil => rfl
  | append_singleton ws w ih =>
    rw [replay_snoc, lastWord_snoc, Write.apply, ih]
    cases w.effect k <;> rfl

/-- Two logs that touch the same keys make the same of a key exactly if their last words on it
agree. -/
theorem replay_eq_iff_lastWord {ws ws' : List (Write κ ν)} {m : κ → Option ν} {k : κ}
    (h : (∃ w ∈ ws, w.Touches k) ↔ ∃ w ∈ ws', w.Touches k) :
    replay ws m k = replay ws' m k ↔ lastWord ws k = lastWord ws' k := by
  rw [← isSome_lastWord, ← isSome_lastWord] at h
  rw [replay_eq_lastWord, replay_eq_lastWord]
  cases hw : lastWord ws k <;> cases hw' : lastWord ws' k <;> simp_all

/-! ## A copy that follows an origin -/

/-- The origin shows every write of the backlog: replaying the backlog on it changes nothing. -/
def Absorbed (backlog : List (Write κ ν)) (origin : κ → Option ν) (k : κ) : Prop :=
  replay backlog origin k = origin k

/-- Replaying the backlog on the copy gives the origin. -/
def CaughtUp (backlog : List (Write κ ν)) (copy origin : κ → Option ν) (k : κ) : Prop :=
  replay backlog copy k = origin k

section Following

variable {backlog : List (Write κ ν)} {copy origin : κ → Option ν} {k : κ}

/-- A new write of the origin joins the backlog: on a key it leaves alone the backlog decides as
before, on the others it has the last word. -/
theorem CaughtUp.snoc (h : CaughtUp backlog copy origin k) (w : Write κ ν) :
    CaughtUp (backlog ++ [w]) copy (w.apply origin) k := by
  rw [CaughtUp, replay_snoc]
  exact congrArg (w.effect k).getD h

/-- **A write catches its key up**, whatever the copy holds. -/
theorem caughtUp_snoc_of_touches {w : Write κ ν} (h : w.Touches k) :
    CaughtUp (backlog ++ [w]) copy (w.apply origin) k := by
  rw [CaughtUp, replay_snoc]
  exact Write.apply_of_touches h _ _

theorem CaughtUp.tail {w : Write κ ν} (h : CaughtUp (w :: backlog) copy origin k) :
    CaughtUp backlog (w.apply copy) origin k := h

theorem Absorbed.snoc (h : Absorbed backlog origin k) (w : Write κ ν) :
    Absorbed (backlog ++ [w]) (w.apply origin) k := by
  rw [Absorbed, replay_snoc]
  by_cases hw : w.Touches k
  · exact Write.apply_of_touches hw _ _
  · rw [Write.apply_of_not_touches hw, Write.apply_of_not_touches hw,
      replay_congr (Write.apply_of_not_touches hw origin)]
    exact h

/-- Delivering the oldest write leaves the rest absorbed. -/
theorem Absorbed.tail {w : Write κ ν} (h : Absorbed (w :: backlog) origin k) :
    Absorbed backlog origin k := by
  by_cases hk : ∃ w' ∈ backlog, w'.Touches k
  · exact (replay_of_touched hk origin (w.apply origin)).trans h
  · exact replay_of_untouched (fun w' hw' ht => hk ⟨w', hw', ht⟩) origin

/-- **A listing of the origin is caught up**, whatever older writes are still in flight. -/
theorem Absorbed.caughtUp (h : Absorbed backlog origin k) : CaughtUp backlog origin origin k := h

end Following

/-! ## A map read under other names -/

section Reading

variable {ι : Type*} {f : ι → Option κ} {m : κ → Option ν} {i : ι} {k : κ}

/-- A map read under other names: `f` says which key a name stands for, if any. -/
def reading (f : ι → Option κ) (m : κ → Option ν) : ι → Option ν := fun i => (f i).bind m

/-- What a key that has just one name is made to hold, that name is. -/
theorem reading_update [DecidableEq ι] (hi : f i = some k) (hunique : ∀ j, f j = some k → j = i)
    (o : Option ν) : reading f (Function.update m k o) = Function.update (reading f m) i o := by
  funext j
  rcases eq_or_ne j i with rfl | hne
  · simp [reading, hi]
  · rw [Function.update_of_ne hne, reading, reading]
    refine Option.bind_congr fun k' hk' => Function.update_of_ne ?_ _ _
    rintro rfl
    exact hne (hunique j hk')

/-- A write to keys without a name is not seen. -/
theorem reading_of_unnamed {w : Write κ ν} (h : ∀ i k, f i = some k → ¬ w.Touches k) :
    reading f (w.apply m) = reading f m := by
  funext i
  exact Option.bind_congr fun k hk => Write.apply_of_not_touches (h i k hk) m

/-- **A log is read under other names write by write.** -/
theorem reading_replay [DecidableEq ι] {read : Write κ ν → List (Write ι ν)} {ws : List (Write κ ν)}
    (h : ∀ w ∈ ws, ∀ m, reading f (w.apply m) = replay (read w) (reading f m)) :
    reading f (replay ws m) = replay (ws.flatMap read) (reading f m) := by
  induction ws generalizing m with
  | nil => rfl
  | cons w ws ih =>
    rw [replay_cons, List.flatMap_cons, replay_append,
      ih fun w' hw' => h w' (List.mem_cons_of_mem w hw'), h w List.mem_cons_self]

end Reading

end Writes
