import Mathlib
import DesignChart.Proofs.Matrix.Entries

/-!
# Data with one more entry between two neighbours

A table is refined by an entry between two neighbouring ones that is made of these two. The entries
of the refined data are those of the data, the later ones one place further on. A written grid is
refined by a whole line, or by an entry in each of its lines, whichever way round it is written.
-/

namespace DesignChart

section Entries

variable {β γ : Type} {mean : β → β → β} {k : Nat}

/-- The entry in place `i` when one that `mean` makes of entries `k` and `k + 1` stands between the
two. -/
def refinedAt (mean : β → β → β) (k : Nat) (entry : Nat → β) (i : Nat) : β :=
  if i ≤ k then entry i else if i = k + 1 then mean (entry k) (entry (k + 1)) else entry (i - 1)

/-- The data with an entry that `mean` makes of entries `k` and `k + 1` between the two. -/
def refine (mean : β → β → β) (k : Nat) (data : Array β) : Array β :=
  if h : k + 1 < data.size then data.insertIdx (k + 1) (mean data[k] data[k + 1]) h.le else data

theorem refinedAt_of_le {i : Nat} (h : i ≤ k) (entry : Nat → β) :
    refinedAt mean k entry i = entry i := if_pos h

theorem refinedAt_succ (entry : Nat → β) :
    refinedAt mean k entry (k + 1) = mean (entry k) (entry (k + 1)) := by
  unfold refinedAt
  rw [if_neg (by omega), if_pos rfl]

theorem refinedAt_of_lt {i : Nat} (h : k < i) (entry : Nat → β) :
    refinedAt mean k entry (i + 1) = entry i := by
  unfold refinedAt
  rw [if_neg (by omega), if_neg (by omega), Nat.add_sub_cancel]

/-- What respects the making of entries respects their places. -/
theorem map_refinedAt {mean' : γ → γ → γ} {g : β → γ} (hg : ∀ a b, g (mean a b) = mean' (g a) (g b))
    (entry : Nat → β) (i : Nat) :
    g (refinedAt mean k entry i) = refinedAt mean' k (fun i => g (entry i)) i := by
  unfold refinedAt
  split
  next => rfl
  next =>
    split
    next => exact hg _ _
    next => rfl

theorem refinedAt_congr {entry entry' : Nat → β} {n i : Nat} (hk : k + 1 < n) (hi : i < n + 1)
    (h : ∀ i < n, entry i = entry' i) : refinedAt mean k entry i = refinedAt mean k entry' i := by
  unfold refinedAt
  rw [h k (by omega), h (k + 1) hk]
  split
  next => exact h i (by omega)
  next =>
    split
    next => rfl
    next => exact h (i - 1) (by omega)

variable {data : Array β}

theorem size_refine (h : k + 1 < data.size) : (refine mean k data).size = data.size + 1 := by
  unfold refine
  rw [dif_pos h, Array.size_insertIdx]

theorem getElem?_refine (h : k + 1 < data.size) (i : Nat) :
    (refine mean k data)[i]? = refinedAt (Option.map₂ mean) k (data[·]?) i := by
  have hk : k < data.size := Nat.lt_of_succ_lt h
  unfold refine refinedAt
  rw [dif_pos h, Array.getElem?_insertIdx]
  by_cases hle : i ≤ k
  · rw [if_pos (Nat.lt_succ_of_le hle), if_pos hle]
  · rw [if_neg (by omega), if_neg hle]
    split
    next heq =>
      dsimp only
      rw [if_pos (heq ▸ h.le), Array.getElem?_eq_getElem hk, Array.getElem?_eq_getElem h]
      rfl
    next => rfl

theorem getElem_refine (h : k + 1 < data.size) {i : Nat} (hi : i < (refine mean k data).size)
    (d : β) : (refine mean k data)[i] = refinedAt mean k (data.getD · d) i := by
  rw [size_refine h] at hi
  have hentry : ∀ i < data.size, data[i]? = some (data.getD i d) := fun i hi => by simp [hi]
  apply Option.some.inj
  rw [← Array.getElem?_eq_getElem, getElem?_refine h, refinedAt_congr h hi hentry]
  exact (map_refinedAt (g := some) (fun _ _ => rfl) _ i).symm

theorem insertIdx_eq_refine (mean : β → β → β) (h : k + 1 < data.size) {b : β}
    (hb : mean data[k] data[k + 1] = b) :
    data.insertIdxIfInBounds (k + 1) b = refine mean k data := by
  unfold Array.insertIdxIfInBounds refine
  rw [dif_pos h.le, dif_pos h, hb]

end Entries

namespace Rows

variable {β : Type} {mean : β → β → β} {axis : Option Nat} {k : Nat} {rows : Array (Array β)}

/-- The written grid with a row that is made of rows `k` and `k + 1` between the two. -/
def refineRows (mean : β → β → β) (k : Nat) (rows : Array (Array β)) : Array (Array β) :=
  refine (Array.zipWith mean) k rows

/-- The written grid with such a column. -/
def refineColumns (mean : β → β → β) (k : Nat) (rows : Array (Array β)) : Array (Array β) :=
  rows.map (refine mean k)

/-- The grid with a line that is made of lines `k` and `k + 1` between the two. The lines run along
the first variable, `axis` being its dimension. -/
def refineLines (mean : β → β → β) (axis : Option Nat) (k : Nat) (rows : Array (Array β)) :
    Array (Array β) :=
  if axis = some 1 then refineColumns mean k rows else refineRows mean k rows

/-- The grid with an entry of its own in each line, made of entries `k` and `k + 1` of that line. -/
def refineAlong (mean : β → β → β) (axis : Option Nat) (k : Nat) (rows : Array (Array β)) :
    Array (Array β) :=
  if axis = some 1 then refineRows mean k rows else refineColumns mean k rows

-- The lines are the columns here, so that each row changes.
example : refineLines (fun a b => a + b) (some 1) 0 #[#[1, 2], #[3, 4]] =
    #[#[1, 3, 2], #[3, 7, 4]] := by cbv

theorem entry_refineRows (hk : k + 1 < rows.size) (i j : Nat) :
    (refineRows mean k rows)[i]?.bind (·[j]?) =
      refinedAt (Option.map₂ mean) k (fun i => rows[i]?.bind (·[j]?)) i := by
  unfold refineRows
  rw [getElem?_refine hk]
  refine map_refinedAt (g := fun row : Option (Array β) => row.bind (·[j]?)) (fun a b => ?_) _ i
  cases a with
  | none => rfl
  | some a =>
    cases b with
    | none => exact (Option.map₂_none_right _ _).symm
    | some b =>
      show (Array.zipWith mean a b)[j]? = Option.map₂ mean a[j]? b[j]?
      rw [Array.getElem?_zipWith]
      cases a[j]? <;> cases b[j]? <;> rfl

theorem entry_refineColumns (h : Rectangular rows) (hk : k + 1 < width rows) (i j : Nat) :
    (refineColumns mean k rows)[i]?.bind (·[j]?) =
      refinedAt (Option.map₂ mean) k (fun j => rows[i]?.bind (·[j]?)) j := by
  unfold refineColumns
  rw [Array.getElem?_map]
  cases hrow : rows[i]? with
  | none =>
    unfold refinedAt
    split
    next => rfl
    next => split <;> rfl
  | some row =>
    have hsize := h.size_row row (Array.mem_of_getElem? hrow)
    exact getElem?_refine (hsize ▸ hk) j

theorem refineRows_spec (mean : β → β → β) (h : Rectangular rows) (hk : k + 1 < rows.size) :
    Rectangular (refineRows mean k rows) ∧ (refineRows mean k rows).size = rows.size + 1 ∧
      width (refineRows mean k rows) = width rows := by
  have hsize : (refineRows mean k rows).size = rows.size + 1 := size_refine hk
  have hwidth : width (refineRows mean k rows) = width rows := by
    unfold width refineRows
    rw [getElem?_refine hk, refinedAt_of_le (Nat.zero_le k)]
  refine ⟨⟨by omega, fun row hrow => ?_⟩, hsize, hwidth⟩
  rw [hwidth]
  unfold refineRows refine at hrow
  rw [dif_pos hk, Array.mem_insertIdx] at hrow
  rcases hrow with rfl | hrow
  · have hfirst := h.size_row rows[k] (Array.getElem_mem _)
    have hsecond := h.size_row rows[k + 1] (Array.getElem_mem _)
    rw [Array.size_zipWith, hfirst, hsecond, Nat.min_self]
  · exact h.size_row row hrow

theorem refineColumns_spec (mean : β → β → β) (h : Rectangular rows) (hk : k + 1 < width rows) :
    Rectangular (refineColumns mean k rows) ∧ (refineColumns mean k rows).size = rows.size ∧
      width (refineColumns mean k rows) = width rows + 1 := by
  have hrow : ∀ row ∈ rows, (refine mean k row).size = width rows + 1 := by
    intro row hrow
    have hsize := h.size_row row hrow
    rw [size_refine (hsize ▸ hk), hsize]
  have hwidth : width (refineColumns mean k rows) = width rows + 1 := by
    have hpos := h.size_pos
    simp [width, refineColumns, hpos, hrow _ (Array.getElem_mem hpos)]
  refine ⟨⟨?_, fun row hmem => ?_⟩, Array.size_map, hwidth⟩
  · rw [refineColumns, Array.size_map]
    exact h.size_pos
  · obtain ⟨row', hrow', rfl⟩ := Array.mem_map.mp hmem
    rw [hwidth, hrow row' hrow']

/-- A grid refined by a line has one line more. -/
theorem refineLines_spec (mean : β → β → β) (h : Rectangular rows)
    (hk : k + 1 < (extent axis rows).1) :
    Rectangular (refineLines mean axis k rows) ∧
      extent axis (refineLines mean axis k rows) =
        ((extent axis rows).1 + 1, (extent axis rows).2) := by
  unfold refineLines extent at *
  split
  next ha =>
    rw [if_pos ha] at hk
    obtain ⟨hrect, hsize, hwidth⟩ := refineColumns_spec mean h hk
    simp [hrect, hsize, hwidth]
  next ha =>
    rw [if_neg ha] at hk
    obtain ⟨hrect, hsize, hwidth⟩ := refineRows_spec mean h hk
    simp [hrect, hsize, hwidth]

/-- A grid refined along its lines has one entry more in each. -/
theorem refineAlong_spec (mean : β → β → β) (h : Rectangular rows)
    (hk : k + 1 < (extent axis rows).2) :
    Rectangular (refineAlong mean axis k rows) ∧
      extent axis (refineAlong mean axis k rows) =
        ((extent axis rows).1, (extent axis rows).2 + 1) := by
  unfold refineAlong extent at *
  split
  next ha =>
    rw [if_pos ha] at hk
    obtain ⟨hrect, hsize, hwidth⟩ := refineRows_spec mean h hk
    simp [hrect, hsize, hwidth]
  next ha =>
    rw [if_neg ha] at hk
    obtain ⟨hrect, hsize, hwidth⟩ := refineColumns_spec mean h hk
    simp [hrect, hsize, hwidth]

theorem entry?_refineLines (h : Rectangular rows) (hk : k + 1 < (extent axis rows).1) (i j : Nat) :
    entry? axis (refineLines mean axis k rows) i j =
      refinedAt (Option.map₂ mean) k (Rows.entry? axis rows · j) i := by
  unfold refineLines entry? extent at *
  split
  next ha =>
    rw [if_pos ha] at hk
    exact entry_refineColumns h hk j i
  next ha =>
    rw [if_neg ha] at hk
    exact entry_refineRows hk i j

theorem entry?_refineAlong (h : Rectangular rows) (hk : k + 1 < (extent axis rows).2) (i j : Nat) :
    entry? axis (refineAlong mean axis k rows) i j =
      refinedAt (Option.map₂ mean) k (Rows.entry? axis rows i) j := by
  unfold refineAlong entry? extent at *
  split
  next ha =>
    rw [if_pos ha] at hk
    exact entry_refineRows hk j i
  next ha =>
    rw [if_neg ha] at hk
    exact entry_refineColumns h hk i j

/-- Each line of a grid refined along its lines is that line refined. -/
theorem line_refineAlong (h : Rectangular rows) (hk : k + 1 < (extent axis rows).2) {i : Nat}
    (hi : i < (extent axis rows).1) :
    line axis (refineAlong mean axis k rows) i = refine mean k (line axis rows i) := by
  obtain ⟨hrect, hextent⟩ := refineAlong_spec mean h hk
  have hi' : i < (extent axis (refineAlong mean axis k rows)).1 := by
    rw [hextent]
    exact hi
  have hline : k + 1 < (line axis rows i).size := by
    rw [size_line h hi]
    exact hk
  apply Array.ext_getElem?
  intro j
  rw [getElem?_line hrect hi', entry?_refineAlong h hk, getElem?_refine hline]
  exact congrArg (refinedAt _ k · j) (funext fun l => (getElem?_line h hi l).symm)

end Rows

end DesignChart
