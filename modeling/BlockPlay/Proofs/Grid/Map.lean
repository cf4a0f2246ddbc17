import BlockPlay.Grid.Basic

/-!
Cells and places. As long as the size of a map with equally long rows is a 32-bit number, places stand for its
cells one to one, and a search for a cell finds each of its places once.
-/
namespace BlockPlay.Grid

/-- All rows are as long as the first one. -/
def Even (g : Grid) : Prop := ∀ row ∈ g.rows, row.length = g.width

/-- Both dimensions are 32-bit numbers. -/
def Fits (g : Grid) : Prop :=
  (g.width : Int) ≤ Int32.maxValue.toInt ∧ (g.height : Int) ≤ Int32.maxValue.toInt

/-- The cell in a column and a row. -/
def cell? (g : Grid) (x y : Nat) : Option Char := g.rows[y]?.bind fun row => row[x]?

/-- The number of cells that hold a character. -/
def count (g : Grid) (cell : Char) : Nat := g.rows.flatten.count cell

variable {g : Grid} {p : Position} {c : Char}

theorem get?_eq_some_iff :
    g.get? p = some c ↔ ∃ x y : Nat, p.x.toInt = x ∧ p.y.toInt = y ∧ g.cell? x y = some c := by
  rw [get?]
  constructor
  · intro found
    split at found
    next x y column row => exact ⟨x, y, column, row, found⟩
    next => cases found
  · rintro ⟨x, y, column, row, found⟩
    rw [column, row]
    exact found

theorem cell?_bounds (even : g.Even) {x y : Nat} (found : g.cell? x y = some c) :
    x < g.width ∧ y < g.height := by
  obtain ⟨row, at_y, at_x⟩ := Option.bind_eq_some_iff.mp found
  have length := even row (List.mem_of_getElem? at_y)
  obtain ⟨within, -⟩ := List.getElem?_eq_some_iff.mp at_x
  obtain ⟨below, -⟩ := List.getElem?_eq_some_iff.mp at_y
  exact ⟨length ▸ within, below⟩

theorem toInt_place {x y : Nat} (column : (x : Int) < Int32.maxValue.toInt)
    (row : (y : Int) < Int32.maxValue.toInt) :
    (place x y).x.toInt = x ∧ (place x y).y.toInt = y := by
  rw [Int32.toInt_maxValue] at column row
  exact ⟨Int32.toInt_ofNat_of_lt (by omega), Int32.toInt_ofNat_of_lt (by omega)⟩

theorem toInt_place_of_cell? (even : g.Even) (fits : g.Fits) {x y : Nat} (found : g.cell? x y = some c) :
    (place x y).x.toInt = x ∧ (place x y).y.toInt = y := by
  obtain ⟨column, row⟩ := cell?_bounds even found
  obtain ⟨wide, high⟩ := fits
  exact toInt_place (by omega) (by omega)

theorem get?_place (even : g.Even) (fits : g.Fits) {x y : Nat} (found : g.cell? x y = some c) :
    g.get? (place x y) = some c := by
  obtain ⟨column, row⟩ := toInt_place_of_cell? even fits found
  exact get?_eq_some_iff.mpr ⟨x, y, column, row, found⟩

/-- Places in the order in which a map is read. -/
def Earlier (p q : Position) : Prop :=
  p.y.toInt < q.y.toInt ∨ p.y.toInt = q.y.toInt ∧ p.x.toInt < q.x.toInt

theorem Earlier.ne {p q : Position} (before : Earlier p q) : p ≠ q := by
  rintro rfl
  rcases before with above | ⟨-, left⟩
  · exact absurd above (Int.lt_irrefl _)
  · exact absurd left (Int.lt_irrefl _)

theorem mem_findInRow {y : Nat} {row : List Char} :
    p ∈ findInRow c y row ↔ ∃ x, row[x]? = some c ∧ p = place x y := by
  simp only [findInRow, List.mem_map, List.mem_filter, Prod.exists, List.mem_zipIdx_iff_getElem?, beq_iff_eq]
  constructor
  · rintro ⟨_, x, ⟨found, rfl⟩, rfl⟩
    exact ⟨x, found, rfl⟩
  · rintro ⟨x, found, rfl⟩
    exact ⟨c, x, ⟨found, rfl⟩, rfl⟩

theorem mem_find : p ∈ g.find c ↔ ∃ x y, g.cell? x y = some c ∧ p = place x y := by
  simp only [find, List.mem_flatMap, Prod.exists, List.mem_zipIdx_iff_getElem?, mem_findInRow, cell?,
    Option.bind_eq_some_iff]
  constructor
  · rintro ⟨row, y, at_y, x, found, rfl⟩
    exact ⟨x, y, ⟨row, at_y, found⟩, rfl⟩
  · rintro ⟨x, y, ⟨row, at_y, found⟩, rfl⟩
    exact ⟨row, y, at_y, x, found, rfl⟩

theorem mem_find_iff_get? (even : g.Even) (fits : g.Fits) : p ∈ g.find c ↔ g.get? p = some c := by
  rw [mem_find]
  constructor
  · rintro ⟨x, y, found, rfl⟩
    exact get?_place even fits found
  · intro found
    obtain ⟨x, y, column, row, found⟩ := get?_eq_some_iff.mp found
    obtain ⟨across, down⟩ := toInt_place_of_cell? even fits found
    have sameColumn : p.x = (place x y).x := Int32.toInt_inj.mp (column.trans across.symm)
    have sameRow : p.y = (place x y).y := Int32.toInt_inj.mp (row.trans down.symm)
    refine ⟨x, y, found, ?_⟩
    cases p
    cases sameColumn
    cases sameRow
    rfl

theorem pairwise_zipIdx {α : Type} (l : List α) : l.zipIdx.Pairwise fun a b => a.2 < b.2 := by
  have numbers : (l.zipIdx.map Prod.snd).Pairwise (· < ·) := by
    rw [List.zipIdx_map_snd]
    exact List.pairwise_lt_range'
  exact List.pairwise_map.mp numbers

theorem pairwise_find (even : g.Even) (fits : g.Fits) : (g.find c).Pairwise Earlier := by
  have exact {row : List Char} {y : Nat} (at_y : (row, y) ∈ g.rows.zipIdx) {x : Nat} {cell : Char}
      (at_x : row[x]? = some cell) : (place x y).x.toInt = x ∧ (place x y).y.toInt = y := by
    refine toInt_place_of_cell? even fits (c := cell) ?_
    rw [cell?, List.mem_zipIdx_iff_getElem?.mp at_y, Option.bind_some, at_x]
  refine List.pairwise_flatMap.mpr ⟨fun (row, y) at_y => ?_, ?_⟩
  · refine List.pairwise_map.mpr (((pairwise_zipIdx row).imp_of_mem ?_).filter _)
    rintro ⟨a, x⟩ ⟨b, x'⟩ inA inB left
    obtain ⟨columnA, rowA⟩ := exact at_y (List.mem_zipIdx_iff_getElem?.mp inA)
    obtain ⟨columnB, rowB⟩ := exact at_y (List.mem_zipIdx_iff_getElem?.mp inB)
    refine Or.inr ⟨rowA.trans rowB.symm, ?_⟩
    rw [columnA, columnB]
    exact Int.ofNat_lt.mpr left
  · refine (pairwise_zipIdx g.rows).imp_of_mem ?_
    rintro ⟨upper, y⟩ ⟨lower, y'⟩ inUpper inLower above p found q later
    obtain ⟨x, at_x, rfl⟩ := mem_findInRow.mp found
    obtain ⟨x', at_x', rfl⟩ := mem_findInRow.mp later
    refine Or.inl ?_
    rw [(exact inUpper at_x).2, (exact inLower at_x').2]
    exact Int.ofNat_lt.mpr above

theorem nodup_find (even : g.Even) (fits : g.Fits) : (g.find c).Nodup :=
  (pairwise_find even fits).imp Earlier.ne

theorem length_findInRow (y : Nat) (row : List Char) : (findInRow c y row).length = row.count c := by
  have cells : row.count c = (row.zipIdx.map Prod.fst).countP (· == c) := by
    rw [List.zipIdx_map_fst]
    rfl
  rw [findInRow, List.length_map, ← List.countP_eq_length_filter, cells, List.countP_map]
  rfl

theorem length_find (g : Grid) (c : Char) : (g.find c).length = g.count c := by
  have rows : g.rows.map (List.count c) = g.rows.zipIdx.map (List.count c ∘ Prod.fst) := by
    rw [← List.map_map, List.zipIdx_map_fst]
  rw [find, List.length_flatMap, count, List.count_flatten, rows]
  exact congrArg List.sum (List.map_congr_left fun cell _ => length_findInRow cell.2 cell.1)

end BlockPlay.Grid
