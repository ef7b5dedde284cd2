import PecsRegistry.Selector.P2C

/-!
# Selector/Draws — the two choices, on machine words

`pick_two` computes its indices in `usize`.  Where the length is at most `2 ^ 63` no operation of it
overflows or divides by zero, and it draws the pair of `indices` (`exists_checkedPickTwo`).  So its
pairs are the residues of the seed modulo `len * (len - 1)`, and that many consecutive seeds draw
each of them once (`pickTwo_uniform`).
-/

namespace PecsRegistry

namespace P2CSelector

variable {len : UInt64}

/-- What `pick_two` does with its seed: `none` is an overflow or a division by zero. -/
def checkedIndices (seed len : UInt64) : Option (UInt64 × UInt64) := do
  let idx1 ← usizeRem seed len
  let turns ← usizeDiv seed len
  let span ← usizeSub len 1
  let offset ← usizeAdd 1 (← usizeRem turns span)
  let idx2 ← usizeRem (← usizeAdd idx1 offset) len
  some (idx1, idx2)

/-- A whole `pick_two`: the seed is the clock's reading and the sequence number, added with
wrapping. -/
def checkedPickTwo (sel : P2CSelector) (now len : UInt64) :
    Option ((UInt64 × UInt64) × P2CSelector) :=
  (checkedIndices (now + sel.seedCounter) len).map fun idx =>
    (idx, { sel with seedCounter := sel.seedCounter + 1 })

/-- **No operation fails**, and the indices are those of unbounded numbers. -/
theorem exists_checkedIndices (hlen : 2 ≤ len.toNat) (hmax : len.toNat ≤ 2 ^ 63) (seed : UInt64) :
    ∃ i j, checkedIndices seed len = some (i, j)
      ∧ (i.toNat, j.toNat) = indices seed len.toNat := by
  have hone : (1 : UInt64).toNat = 1 := rfl
  have hpos : 0 < len.toNat := by omega
  obtain ⟨idx1, hrem, hidx1⟩ := exists_usizeRem seed hpos
  obtain ⟨turns, hdiv, hturns⟩ := exists_usizeDiv seed hpos
  obtain ⟨span, hsub, hspan⟩ := exists_usizeSub (a := len) (b := 1) (by omega)
  have hspanPos : 0 < span.toNat := by omega
  obtain ⟨turn, hrem', hturn⟩ := exists_usizeRem turns hspanPos
  have hturnLt : turn.toNat < span.toNat := hturn ▸ Nat.mod_lt _ hspanPos
  have hidx1Lt : idx1.toNat < len.toNat := hidx1 ▸ Nat.mod_lt _ hpos
  obtain ⟨offset, hadd, hoffset⟩ := exists_usizeAdd (a := 1) (b := turn) (by omega)
  obtain ⟨sum, hadd', hsum⟩ := exists_usizeAdd (a := idx1) (b := offset) (by omega)
  obtain ⟨idx2, hrem'', hidx2⟩ := exists_usizeRem sum hpos
  refine ⟨idx1, idx2, ?_, ?_⟩
  · simp only [checkedIndices, hrem, hdiv, hsub, hrem', hadd, hadd', hrem'', Option.bind_eq_bind,
      Option.bind_some]
  · rw [hidx2, hsum, hoffset, hturn, hturns, hspan, hidx1, hone]
    rfl

/-- The machine draws what the selector does. -/
theorem exists_checkedPickTwo (hlen : 2 ≤ len.toNat) (hmax : len.toNat ≤ 2 ^ 63)
    (sel : P2CSelector) (now : UInt64) :
    ∃ i j, sel.checkedPickTwo now len = some ((i, j), (sel.pickTwo now len.toNat).2)
      ∧ (i.toNat, j.toNat) = (sel.pickTwo now len.toNat).1 := by
  obtain ⟨i, j, hdraw, hidx⟩ := exists_checkedIndices hlen hmax (now + sel.seedCounter)
  exact ⟨i, j, by rw [checkedPickTwo, hdraw]; rfl, hidx⟩

/-- A pair is drawn exactly if it is that of the seed. -/
theorem checkedIndices_eq_some (hlen : 2 ≤ len.toNat) (hmax : len.toNat ≤ 2 ^ 63)
    {seed i j : UInt64} : checkedIndices seed len = some (i, j)
      ↔ OrderedPairs.draw len.toNat seed.toNat = (i.toNat, j.toNat) := by
  obtain ⟨i', j', hdraw, hidx⟩ := exists_checkedIndices hlen hmax seed
  have hseed : OrderedPairs.draw len.toNat seed.toNat = (i'.toNat, j'.toNat) := hidx.symm
  rw [hdraw, hseed, Option.some_inj, Prod.mk_inj, Prod.mk_inj, UInt64.toNat_inj, UInt64.toNat_inj]

/-- Two indices are those of a seed within the range of the machine. -/
theorem exists_seed (hlen : 2 ≤ len.toNat) (hmax : len.toNat ≤ 2 ^ 63) {start : UInt64}
    (hwrap : start.toNat + len.toNat * (len.toNat - 1) ≤ 2 ^ 64) {i j : UInt64}
    (hi : i < len) (hj : j < len) (hij : i ≠ j) :
    ∃ seed : UInt64, start ≤ seed ∧ seed.toNat < start.toNat + len.toNat * (len.toNat - 1)
      ∧ checkedIndices seed len = some (i, j) := by
  have hpair : (i.toNat, j.toNat) ∈ (Finset.range len.toNat).offDiag :=
    Finset.mem_offDiag.mpr ⟨Finset.mem_range.mpr (UInt64.lt_iff_toNat_lt.mp hi),
      Finset.mem_range.mpr (UInt64.lt_iff_toNat_lt.mp hj), fun h => hij (UInt64.toNat_inj.mp h)⟩
  obtain ⟨s, hs, hdraw⟩ := (OrderedPairs.bijOn_draw hlen start.toNat).surjOn hpair
  obtain ⟨hlow, hhigh⟩ := Finset.mem_Ico.mp (Finset.mem_coe.mp hs)
  have hseed : (UInt64.ofNat s).toNat = s := UInt64.toNat_ofNat_of_lt' (hhigh.trans_le hwrap)
  refine ⟨UInt64.ofNat s, UInt64.le_iff_toNat_le.mpr (hseed.symm ▸ hlow), hseed.symm ▸ hhigh, ?_⟩
  rw [checkedIndices_eq_some hlen hmax, hseed]
  exact hdraw

/-- **The pairs are drawn uniformly.**  No draw overflows or divides by zero, and it takes two
distinct indices below the length; and among any `len * (len - 1)` consecutive seeds, one and only
one draws a given pair. -/
theorem pickTwo_uniform (hlen : 2 ≤ len) (hfits : len.toNat * (len.toNat - 1) < 2 ^ 64) :
    (∀ (sel : P2CSelector) (now : UInt64), ∃ i j,
      sel.checkedPickTwo now len = some ((i, j), { sel with seedCounter := sel.seedCounter + 1 })
        ∧ checkedIndices (now + sel.seedCounter) len = some (i, j)
        ∧ i < len ∧ j < len ∧ i ≠ j)
      ∧ ∀ start : UInt64, start.toNat + len.toNat * (len.toNat - 1) ≤ 2 ^ 64 →
        ∀ i j, i < len → j < len → i ≠ j → ∃! seed : UInt64, (start ≤ seed
          ∧ seed.toNat < start.toNat + len.toNat * (len.toNat - 1))
          ∧ checkedIndices seed len = some (i, j) := by
  have htwo : 2 ≤ len.toNat := UInt64.le_iff_toNat_le.mp hlen
  have hmax : len.toNat ≤ 2 ^ 63 := by
    by_contra! h
    have hsquare : 2 ^ 63 * 2 ≤ len.toNat * (len.toNat - 1) :=
      Nat.mul_le_mul (by omega) (by omega)
    omega
  constructor
  · intro sel now
    obtain ⟨i, j, hdraw, hidx⟩ := exists_checkedIndices htwo hmax (now + sel.seedCounter)
    obtain ⟨hi, hj, hij⟩ := indices_spec (now + sel.seedCounter) htwo
    rw [← hidx] at hi hj hij
    refine ⟨i, j, ?_, hdraw, UInt64.lt_iff_toNat_lt.mpr hi, UInt64.lt_iff_toNat_lt.mpr hj,
      fun h => hij (congrArg UInt64.toNat h)⟩
    rw [checkedPickTwo, hdraw, Option.map_some]
  · intro start hwrap i j hi hj hij
    obtain ⟨seed, hlow, hhigh, hdraw⟩ := exists_seed htwo hmax hwrap hi hj hij
    refine ⟨seed, ⟨⟨hlow, hhigh⟩, hdraw⟩, ?_⟩
    rintro seed' ⟨⟨hlow', hhigh'⟩, hdraw'⟩
    rw [checkedIndices_eq_some htwo hmax] at hdraw hdraw'
    -- two seeds of the window with this pair are one
    refine UInt64.toNat_inj.mp (OrderedPairs.injOn_draw htwo start.toNat ?_ ?_
      (hdraw'.trans hdraw.symm))
    · exact Finset.mem_coe.mpr (Finset.mem_Ico.mpr ⟨UInt64.le_iff_toNat_le.mp hlow', hhigh'⟩)
    · exact Finset.mem_coe.mpr (Finset.mem_Ico.mpr ⟨UInt64.le_iff_toNat_le.mp hlow, hhigh⟩)

/-- Of three indices, six seeds in a row draw the third and the first once. -/
theorem pickTwo_uniform_three : ∃! seed : UInt64, ((7 : UInt64) ≤ seed ∧ seed.toNat < 7 + 3 * 2)
    ∧ checkedIndices seed 3 = some (2, 0) :=
  have hlen : (2 : UInt64) ≤ 3 := by decide
  (pickTwo_uniform hlen (by decide)).2 7 (by decide) 2 0 (by decide) (by decide) (by decide)

end P2CSelector

end PecsRegistry
