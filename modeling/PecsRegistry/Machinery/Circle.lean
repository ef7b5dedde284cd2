import Mathlib.Data.List.Basic
import Mathlib.Order.Defs.LinearOrder
import Mathlib.Data.Set.Basic

/-!
# Machinery/Circle — clockwise successors on a circle of points

The points of a linear order are laid out on a circle.  The clockwise successor of a place is the
least point at or after it; past the last point, it is the least point of all (`Clockwise`).  It is
unique, and leaving other points out does not change it (`Clockwise.of_subset`).  Counted round the
circle it is the point least far ahead (`Clockwise.ahead_le`).  On a sorted list it is the first
entry at or after the place, or else the first entry (`nextOn`).
-/

namespace Circle

variable {α β : Type*} [LinearOrder α]

/-- `n` is the clockwise successor of `t` among the points `s`. -/
def Clockwise (s : Set α) (t n : α) : Prop :=
  n ∈ s ∧ ((t ≤ n ∧ ∀ m ∈ s, t ≤ m → n ≤ m) ∨ ((∀ m ∈ s, m < t) ∧ ∀ m ∈ s, n ≤ m))

variable {s s' : Set α} {t n n' : α}

/-- **A clockwise successor stays one** as other points leave. -/
theorem Clockwise.of_subset (h : Clockwise s' t n) (hs : s ⊆ s') (hn : n ∈ s) :
    Clockwise s t n := by
  obtain ⟨-, ⟨hle, hleast⟩ | ⟨hbelow, hleast⟩⟩ := h
  · exact ⟨hn, .inl ⟨hle, fun m hm => hleast m (hs hm)⟩⟩
  · exact ⟨hn, .inr ⟨fun m hm => hbelow m (hs hm), fun m hm => hleast m (hs hm)⟩⟩

theorem Clockwise.unique (h : Clockwise s t n) (h' : Clockwise s t n') : n = n' := by
  obtain ⟨hn, ⟨hle, hleast⟩ | ⟨hbelow, hleast⟩⟩ := h
  · obtain ⟨hn', ⟨hle', hleast'⟩ | ⟨hbelow', -⟩⟩ := h'
    · exact le_antisymm (hleast n' hn' hle') (hleast' n hn hle)
    · exact absurd hle (not_le.mpr (hbelow' n hn))
  · obtain ⟨hn', ⟨hle', -⟩ | ⟨-, hleast'⟩⟩ := h'
    · exact absurd hle' (not_le.mpr (hbelow n' hn'))
    · exact le_antisymm (hleast n' hn') (hleast' n hn)

/-! ## Distances -/

/-- How far ahead of `t` a point stands, on a circle of `N` places. -/
def ahead (N t a : ℕ) : ℕ := (N - t + a) % N

theorem ahead_of_le {N t a : ℕ} (ha : a < N) (h : t ≤ a) : ahead N t a = a - t := by
  rw [ahead, show N - t + a = N + (a - t) by omega, Nat.add_mod_left, Nat.mod_eq_of_lt (by omega)]

theorem ahead_of_lt {N t a : ℕ} (ht : t < N) (h : a < t) : ahead N t a = N - t + a :=
  Nat.mod_eq_of_lt (by omega)

/-- **The clockwise successor is the point least far ahead.** -/
theorem Clockwise.ahead_le {N t n : ℕ} {s : Set ℕ} (h : Clockwise s t n) (ht : t < N)
    (hs : ∀ m ∈ s, m < N) {m : ℕ} (hm : m ∈ s) : ahead N t n ≤ ahead N t m := by
  have hnN := hs n h.1
  have hmN := hs m hm
  obtain ⟨hn, ⟨hle, hleast⟩ | ⟨hbelow, hleast⟩⟩ := h
  · rw [ahead_of_le hnN hle]
    rcases le_or_gt t m with hm' | hm'
    · rw [ahead_of_le hmN hm']
      exact Nat.sub_le_sub_right (hleast m hm hm') t
    · rw [ahead_of_lt ht hm']
      omega
  · rw [ahead_of_lt ht (hbelow n hn), ahead_of_lt ht (hbelow m hm)]
    exact Nat.add_le_add_left (hleast m hm) _

/-! ## On a sorted list -/

variable (key : β → α)

/-- The first entry at or after a place, or else the first entry. -/
def nextOn (l : List β) (t : α) : Option β := (l.find? fun b => t ≤ key b).or l.head?

variable {key} {l : List β} {b : β}

theorem mem_of_nextOn (h : nextOn key l t = some b) : b ∈ l := by
  rcases Option.or_eq_some_iff.mp h with hfind | ⟨-, hhead⟩
  · exact List.mem_of_find?_eq_some hfind
  · exact List.mem_of_mem_head? hhead

/-- **On a sorted list, `nextOn` is the clockwise successor.** -/
theorem clockwise_nextOn (hl : l.Pairwise fun b b' => key b ≤ key b')
    (h : nextOn key l t = some b) : Clockwise {a | ∃ b ∈ l, key b = a} t (key b) := by
  refine ⟨⟨b, mem_of_nextOn h, rfl⟩, ?_⟩
  rcases Option.or_eq_some_iff.mp h with hfind | ⟨hnone, hhead⟩
  · obtain ⟨ht, as, bs, rfl, has⟩ := List.find?_eq_some_iff_append.mp hfind
    refine .inl ⟨by simpa using ht, ?_⟩
    rintro m ⟨b', hb', rfl⟩ hm
    rcases List.mem_append.mp hb' with hb' | hb'
    · exact absurd hm (by simpa using has b' hb')
    · rcases List.mem_cons.mp hb' with rfl | hb'
      · exact le_rfl
      · exact (List.pairwise_cons.mp (List.pairwise_append.mp hl).2.1).1 b' hb'
  · refine .inr ⟨?_, ?_⟩
    · rintro m ⟨b', hb', rfl⟩
      simpa using List.find?_eq_none.mp hnone b' hb'
    · rintro m ⟨b', hb', rfl⟩
      match l, hhead with
      | _ :: l, rfl =>
        rcases List.mem_cons.mp hb' with rfl | hb'
        · exact le_rfl
        · exact (List.pairwise_cons.mp hl).1 b' hb'

end Circle
