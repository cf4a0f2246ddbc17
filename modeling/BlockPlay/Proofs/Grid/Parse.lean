import BlockPlay.Proofs.Grid.Map

/-!
Which rows of cells are a map. Reading goes on from cell to cell, row by row, and keeps to one invariant: no cell
so far has been wrong, and the start is known if it has been among them. So rows that are no map are told by the
first thing that is wrong with them, and a map has one cell for each place and its start where it was drawn.
-/
namespace BlockPlay.Grid

/-- The cell in a column and a row of a drawing. -/
def cellAt (rows : List (List Char)) (x y : Nat) : Option Char := rows[y]?.bind fun row => row[x]?

/-- One place comes before another when a drawing is read. -/
def Precedes (x' y' x y : Nat) : Prop := y' < y ∨ y' = y ∧ x' < x

/-- Walls, floor, the start, and what the game adds. -/
def Known (extra : List Char) (c : Char) : Prop :=
  c = Cell.wall ∨ c = Cell.floor ∨ c = Cell.start ∨ c ∈ extra

/-- There is a first row with cells, and all rows are as long. -/
def Rectangular (rows : List (List Char)) : Prop :=
  ∃ first, rows.head? = some first ∧ first ≠ [] ∧ ∀ row ∈ rows, row.length = first.length

/-- What is wrong with the cell in a column and a row: it is a start after another one, or no known cell. -/
inductive Offends (rows : List (List Char)) (extra : List Char) (x y : Nat) : LevelFault → Prop
  | second {x' y' : Nat} (before : Precedes x' y' x y) (first : cellAt rows x' y' = some Cell.start)
      (here : cellAt rows x y = some Cell.start) : Offends rows extra x y .secondStart
  | unknown {c : Char} (here : cellAt rows x y = some c) (strange : ¬ Known extra c) :
      Offends rows extra x y (.unknownCell c x y)

/-- Rows that are a map. -/
structure Accepted (rows : List (List Char)) (extra : List Char) : Prop where
  rectangular : Rectangular rows
  known : ∀ x y c, cellAt rows x y = some c → Known extra c
  started : ∃ x y, cellAt rows x y = some Cell.start
  once : ∀ x y x' y', cellAt rows x y = some Cell.start → cellAt rows x' y' = some Cell.start → x = x' ∧ y = y'

/-- Why rows are no map: there is no cell at the top, or else a row is the first with another length, or else a
cell is the first that offends, or else there is no start. -/
inductive Rejected (rows : List (List Char)) (extra : List Char) : LevelFault → Prop
  | empty (bare : ∀ first, rows.head? = some first → first = []) : Rejected rows extra .emptyMap
  | ragged {first row : List Char} {y : Nat} (head : rows.head? = some first) (filled : first ≠ [])
      (here : rows[y]? = some row) (uneven : row.length ≠ first.length)
      (above : ∀ y' < y, ∀ other, rows[y']? = some other → other.length = first.length) :
      Rejected rows extra (.raggedRow y row.length first.length)
  | cell {x y : Nat} {f : LevelFault} (rectangular : Rectangular rows) (offends : Offends rows extra x y f)
      (first : ∀ x' y' f', Precedes x' y' x y → ¬ Offends rows extra x' y' f') : Rejected rows extra f
  | noStart (rectangular : Rectangular rows) (sound : ∀ x y f, ¬ Offends rows extra x y f)
      (absent : ∀ x y, cellAt rows x y ≠ some Cell.start) : Rejected rows extra .noStart

variable {rows : List (List Char)} {extra : List Char} {x y x' y' : Nat} {c : Char} {f f' : LevelFault}

theorem Precedes.succ (before : Precedes x' y' (x + 1) y) : Precedes x' y' x y ∨ x' = x ∧ y' = y := by
  rw [Precedes] at before ⊢
  omega

theorem Precedes.irrefl (before : Precedes x y x y) : False := by
  rw [Precedes] at before
  omega

theorem precedes_trichotomy (x y x' y' : Nat) : Precedes x y x' y' ∨ x = x' ∧ y = y' ∨ Precedes x' y' x y := by
  rw [Precedes, Precedes]
  omega

theorem cellAt_eq_some_iff : cellAt rows x y = some c ↔ ∃ row, rows[y]? = some row ∧ row[x]? = some c :=
  Option.bind_eq_some_iff

section Scan

variable {start last : Option Position}

/-- What is known when the reader comes to a place: no cell before it offends, and the start is the start cell
among them, if there is one. -/
structure Clean (rows : List (List Char)) (extra : List Char) (x y : Nat) (start : Option Position) : Prop where
  sound : ∀ x' y' f, Precedes x' y' x y → ¬ Offends rows extra x' y' f
  found : ∀ p, start = some p → ∃ x' y', Precedes x' y' x y ∧ cellAt rows x' y' = some Cell.start ∧ p = place x' y'
  absent : start = none → ∀ x' y', Precedes x' y' x y → cellAt rows x' y' ≠ some Cell.start

/-- The reader gets to a place with all in order, or it tells of the first cell that offends. -/
def Verdict (rows : List (List Char)) (extra : List Char) (x y : Nat) : Except LevelFault (Option Position) → Prop
  | .ok start => Clean rows extra x y start
  | .error f => ∃ x y, Offends rows extra x y f ∧ ∀ x' y' f', Precedes x' y' x y → ¬ Offends rows extra x' y' f'

theorem Clean.origin : Clean rows extra 0 0 none := by
  have nothing {x' y' : Nat} : ¬ Precedes x' y' 0 0 := by
    rw [Precedes]
    omega
  exact ⟨fun _ _ _ before => absurd before nothing, nofun, fun _ _ _ before => absurd before nothing⟩

/-- Past a cell that does not offend, the invariant holds as long as the cell is accounted for. -/
theorem Clean.next (clean : Clean rows extra x y start) (fine : ∀ f, ¬ Offends rows extra x y f)
    (found : ∀ p, last = some p → start = some p ∨ cellAt rows x y = some Cell.start ∧ p = place x y)
    (absent : last = none → start = none ∧ cellAt rows x y ≠ some Cell.start) :
    Clean rows extra (x + 1) y last := by
  have onward {x' y' : Nat} (before : Precedes x' y' x y) : Precedes x' y' (x + 1) y := by
    rw [Precedes] at before ⊢
    omega
  refine ⟨fun x' y' f before => ?_, fun p known => ?_, fun none x' y' before => ?_⟩
  · rcases before.succ with earlier | ⟨rfl, rfl⟩
    · exact clean.sound x' y' f earlier
    · exact fine f
  · rcases found p known with earlier | ⟨here, place⟩
    · obtain ⟨x', y', before, there⟩ := clean.found p earlier
      exact ⟨x', y', onward before, there⟩
    · exact ⟨x, y, .inr ⟨rfl, Nat.lt_succ_self x⟩, here, place⟩
  · obtain ⟨unseen, here⟩ := absent none
    rcases before.succ with earlier | ⟨rfl, rfl⟩
    · exact clean.absent unseen x' y' earlier
    · exact here

/-- At the end of a row the reader goes on with the next one. -/
theorem Clean.wrap (clean : Clean rows extra x y start) (ends : ∀ x', x ≤ x' → cellAt rows x' y = none) :
    Clean rows extra 0 (y + 1) start := by
  have within {x' y' : Nat} {c : Char} (before : Precedes x' y' 0 (y + 1)) (here : cellAt rows x' y' = some c) :
      Precedes x' y' x y := by
    have row : y' < y ∨ y' = y := by
      rw [Precedes] at before
      omega
    refine row.imp_right fun same => ⟨same, Nat.lt_of_not_le fun past => ?_⟩
    rw [same, ends x' past] at here
    cases here
  have later {x' y' : Nat} (before : Precedes x' y' x y) : Precedes x' y' 0 (y + 1) := by
    rw [Precedes] at before ⊢
    omega
  refine ⟨fun x' y' f before offends => ?_, fun p known => ?_, fun none x' y' before here => ?_⟩
  · cases offends with
    | second earlier first here => exact clean.sound x' y' _ (within before here) (.second earlier first here)
    | unknown here strange => exact clean.sound x' y' _ (within before here) (.unknown here strange)
  · obtain ⟨x', y', before, there⟩ := clean.found p known
    exact ⟨x', y', later before, there⟩
  · exact clean.absent none x' y' (within before here) here

theorem Offends.start_or_strange (offends : Offends rows extra x y f) (here : cellAt rows x y = some c) :
    c = Cell.start ∨ ¬ Known extra c := by
  cases offends with
  | second _ _ here' => exact .inl (Option.some.inj (here.symm.trans here'))
  | unknown here' strange =>
    obtain rfl := Option.some.inj (here.symm.trans here')
    exact .inr strange

theorem Clean.ordinary (clean : Clean rows extra x y start) (here : cellAt rows x y = some c)
    (known : Known extra c) (other : c ≠ Cell.start) : Clean rows extra (x + 1) y start := by
  refine clean.next (fun f offends => ?_) (fun p same => .inl same) fun none => ⟨none, fun there => ?_⟩
  · rcases offends.start_or_strange here with start | strange
    · exact other start
    · exact strange known
  · exact other (Option.some.inj (here.symm.trans there))

theorem Clean.opening (clean : Clean rows extra x y none) (here : cellAt rows x y = some Cell.start) :
    Clean rows extra (x + 1) y (some (place x y)) := by
  refine clean.next (fun f offends => ?_) (fun p same => .inr ⟨here, (Option.some.inj same).symm⟩) nofun
  cases offends with
  | second before first => exact clean.absent rfl _ _ before first
  | unknown here' strange =>
    rw [here] at here'
    cases here'
    exact strange (.inr (.inr (.inl rfl)))

theorem scanRow_verdict {row : List Char} (clean : Clean rows extra x y start)
    (rest : ∀ i, cellAt rows (x + i) y = row[i]?) :
    Verdict rows extra (x + row.length) y (scanRow extra y x start row) := by
  -- Along what is left of the row; the invariant stands for the part that has been read.
  induction row generalizing x start with
  | nil => exact clean
  | cons c row ih =>
    have here : cellAt rows x y = some c := rest 0
    have shift (i : Nat) : x + 1 + i = x + (i + 1) := by omega
    have onward {last : Option Position} (next : Clean rows extra (x + 1) y last) :
        Verdict rows extra (x + (c :: row).length) y (scanRow extra y (x + 1) last row) := by
      rw [List.length_cons, ← shift]
      refine ih next fun i => ?_
      rw [shift, rest, List.getElem?_cons_succ]
    unfold scanRow
    split
    next plain =>
      have other : c ≠ Cell.start := by
        rcases plain with rfl | rfl <;> decide
      exact onward (clean.ordinary here (plain.imp_right .inl) other)
    next special =>
      split
      next isStart =>
        subst isStart
        cases start with
        | none => exact onward (clean.opening here)
        | some p =>
          obtain ⟨x', y', before, first, -⟩ := clean.found p rfl
          exact ⟨x, y, .second before first here, clean.sound⟩
      next other =>
        split
        next added => exact onward (clean.ordinary here (.inr (.inr (.inr added))) other)
        next strange =>
          refine ⟨x, y, .unknown here fun known => ?_, clean.sound⟩
          rcases known with wall | floor | start | added
          · exact special (.inl wall)
          · exact special (.inr floor)
          · exact other start
          · exact strange added

theorem scan_verdict {below : List (List Char)} (clean : Clean rows extra 0 y start)
    (rest : ∀ i, rows[y + i]? = below[i]?) :
    Verdict rows extra 0 (y + below.length) (scan extra y start below) := by
  induction below generalizing y start with
  | nil => exact clean
  | cons row below ih =>
    have here : rows[y]? = some row := rest 0
    have cells (i : Nat) : cellAt rows i y = row[i]? := by rw [cellAt, here, Option.bind_some]
    have read : Verdict rows extra (0 + row.length) y (scanRow extra y 0 start row) :=
      scanRow_verdict clean fun i => by rw [Nat.zero_add, cells]
    have shift (i : Nat) : y + 1 + i = y + (i + 1) := by omega
    rw [scan]
    cases scanned : scanRow extra y 0 start row with
    | error f =>
      rw [scanned] at read
      exact read
    | ok last =>
      rw [scanned, Nat.zero_add] at read
      have wrapped : Clean rows extra 0 (y + 1) last := Clean.wrap read fun x' past => by
        rw [cells, List.getElem?_eq_none past]
      rw [List.length_cons, ← shift]
      refine ih wrapped fun i => ?_
      rw [shift, rest, List.getElem?_cons_succ]

theorem Offends.exists_cell (offends : Offends rows extra x y f) : ∃ c, cellAt rows x y = some c := by
  cases offends with
  | second _ _ here => exact ⟨_, here⟩
  | unknown here => exact ⟨_, here⟩

theorem precedes_end (here : cellAt rows x y = some c) : Precedes x y 0 rows.length := by
  obtain ⟨row, at_y, -⟩ := cellAt_eq_some_iff.mp here
  exact .inl (List.getElem?_eq_some_iff.mp at_y).1

theorem Clean.no_offence (clean : Clean rows extra 0 rows.length start) : ¬ Offends rows extra x y f := by
  intro offends
  obtain ⟨c, here⟩ := offends.exists_cell
  exact clean.sound x y f (precedes_end here) offends

/-- A drawing without offence in which a start was found is a map. -/
theorem Clean.accepted {p : Position} (clean : Clean rows extra 0 rows.length (some p))
    (rectangular : Rectangular rows) :
    Accepted rows extra ∧ ∃ x y, cellAt rows x y = some Cell.start ∧ p = place x y := by
  obtain ⟨x, y, -, start, at_start⟩ := clean.found p rfl
  have once (x y x' y' : Nat) (here : cellAt rows x y = some Cell.start)
      (there : cellAt rows x' y' = some Cell.start) : x = x' ∧ y = y' := by
    rcases precedes_trichotomy x y x' y' with before | same | after
    · exact (clean.no_offence (.second before here there)).elim
    · exact same
    · exact (clean.no_offence (.second after there here)).elim
  have known (x y : Nat) (c : Char) (here : cellAt rows x y = some c) : Known extra c :=
    Classical.not_not.mp fun strange => clean.no_offence (.unknown here strange)
  exact ⟨⟨rectangular, known, ⟨x, y, start⟩, once⟩, x, y, start, at_start⟩

theorem Clean.noStart (clean : Clean rows extra 0 rows.length none) (rectangular : Rectangular rows) :
    Rejected rows extra .noStart :=
  .noStart rectangular (fun _ _ _ => clean.no_offence) fun x y here => clean.absent rfl x y (precedes_end here) here

end Scan

theorem even_of_ragged? {rows : List (List Char)} {width : Nat} (none : ragged? width rows = none)
    {row : List Char} (present : row ∈ rows) : row.length = width := by
  obtain ⟨y, at_y⟩ := List.mem_iff_getElem?.mp present
  have clear := List.find?_eq_none.mp (Option.map_eq_none_iff.mp none) (row, y)
    (List.mem_zipIdx_iff_getElem?.mpr at_y)
  simpa using clear

theorem ragged?_eq_some {width : Nat} {row : List Char} (found : ragged? width rows = some (y, row)) :
    rows[y]? = some row ∧ row.length ≠ width ∧
      ∀ y' < y, ∀ other, rows[y']? = some other → other.length = width := by
  obtain ⟨⟨row', y'⟩, first, same⟩ := Option.map_eq_some_iff.mp found
  cases same
  obtain ⟨uneven, i, bound, here, above⟩ := List.find?_eq_some_iff_getElem.mp first
  rw [List.getElem_zipIdx, Nat.zero_add, Prod.mk.injEq] at here
  obtain ⟨rfl, rfl⟩ := here
  have below : i < rows.length := by rwa [List.length_zipIdx] at bound
  refine ⟨List.getElem?_eq_getElem below, by simpa using uneven, fun y' before other at_y' => ?_⟩
  obtain ⟨_, rfl⟩ := List.getElem?_eq_some_iff.mp at_y'
  simpa using above y' before

theorem Accepted.not_rejected (accepted : Accepted rows extra) : ¬ Rejected rows extra f := by
  obtain ⟨⟨first, head, filled, even⟩, known, ⟨x, y, start⟩, once⟩ := accepted
  intro rejected
  cases rejected with
  | empty bare => exact filled (bare first head)
  | ragged head' _ here uneven =>
    obtain rfl := Option.some.inj (head.symm.trans head')
    exact uneven (even _ (List.mem_of_getElem? here))
  | cell _ offends =>
    cases offends with
    | second before first here =>
      obtain ⟨rfl, rfl⟩ := once _ _ _ _ first here
      exact before.irrefl
    | unknown here strange => exact strange (known _ _ _ here)
  | noStart _ _ absent => exact absent x y start

theorem Rectangular.not_empty (rectangular : Rectangular rows)
    (bare : ∀ first, rows.head? = some first → first = []) : False := by
  obtain ⟨first, head, filled, -⟩ := rectangular
  exact filled (bare first head)

theorem Rectangular.not_ragged (rectangular : Rectangular rows) {first row : List Char}
    (head : rows.head? = some first) (here : rows[y]? = some row) (uneven : row.length ≠ first.length) : False := by
  obtain ⟨first', head', -, even⟩ := rectangular
  obtain rfl := Option.some.inj (head.symm.trans head')
  exact uneven (even row (List.mem_of_getElem? here))

theorem Offends.unique (first : Offends rows extra x y f) (second : Offends rows extra x y f') : f = f' := by
  have isKnown : Known extra Cell.start := .inr (.inr (.inl rfl))
  cases first with
  | second _ _ here =>
    cases second with
    | second => rfl
    | unknown here' strange =>
      rw [here] at here'
      cases here'
      exact absurd isKnown strange
  | unknown here strange =>
    cases second with
    | second _ _ here' =>
      rw [here] at here'
      cases here'
      exact absurd isKnown strange
    | unknown here' =>
      rw [here] at here'
      cases here'
      rfl

theorem Rejected.unique (first : Rejected rows extra f) (second : Rejected rows extra f') : f = f' := by
  cases first with
  | empty bare =>
    cases second with
    | empty => rfl
    | ragged head filled => exact absurd (bare _ head) filled
    | cell rectangular => exact (rectangular.not_empty bare).elim
    | noStart rectangular => exact (rectangular.not_empty bare).elim
  | @ragged first row y head filled here uneven above =>
    cases second with
    | empty bare => exact absurd (bare _ head) filled
    | @ragged first' row' y' head' filled' here' uneven' above' =>
      obtain rfl := Option.some.inj (head.symm.trans head')
      rcases Nat.lt_trichotomy y y' with upper | rfl | lower
      · exact absurd (above' y upper row here) uneven
      · obtain rfl := Option.some.inj (here.symm.trans here')
        rfl
      · exact absurd (above y' lower row' here') uneven'
    | cell rectangular => exact (rectangular.not_ragged head here uneven).elim
    | noStart rectangular => exact (rectangular.not_ragged head here uneven).elim
  | @cell x y f rectangular offends earlier =>
    cases second with
    | empty bare => exact (rectangular.not_empty bare).elim
    | ragged head _ here uneven => exact (rectangular.not_ragged head here uneven).elim
    | @cell x' y' f' _ offends' earlier' =>
      rcases precedes_trichotomy x y x' y' with before | ⟨rfl, rfl⟩ | after
      · exact absurd offends (earlier' x y f before)
      · exact offends.unique offends'
      · exact absurd offends' (earlier x' y' f' after)
    | noStart _ sound => exact absurd offends (sound x y f)
  | noStart rectangular sound =>
    cases second with
    | empty bare => exact (rectangular.not_empty bare).elim
    | ragged head _ here uneven => exact (rectangular.not_ragged head here uneven).elim
    | @cell x' y' f' _ offends' => exact absurd offends' (sound x' y' f')
    | noStart => rfl

/-- What a map offers that was read: its start, its cells, and a search for them. -/
structure Charted (g : Grid) : Prop where
  start : g.get? g.start = some Cell.start
  only : ∀ p, g.get? p = some Cell.start → p = g.start
  clear : g.isWall g.start = false
  cells : ∀ p c, g.get? p = some c ↔ ∃ x y : Nat, p.x.toInt = x ∧ p.y.toInt = y ∧ cellAt g.rows x y = some c
  inside : ∀ p, (∃ c, g.get? p = some c) ↔
    (0 ≤ p.x.toInt ∧ p.x.toInt < g.width) ∧ 0 ≤ p.y.toInt ∧ p.y.toInt < g.height
  walls : ∀ p, g.isWall p ↔ g.get? p = none ∨ g.get? p = some Cell.wall
  found : ∀ c p, p ∈ g.find c ↔ g.get? p = some c
  inOrder : ∀ c, (g.find c).Pairwise Earlier
  once : ∀ c, (g.find c).Nodup

variable {g : Grid}

theorem isWall_iff {p : Position} : g.isWall p ↔ g.get? p = none ∨ g.get? p = some Cell.wall := by
  rw [isWall]
  cases g.get? p <;> simp

theorem exists_get?_iff (even : g.Even) {p : Position} : (∃ c, g.get? p = some c) ↔
    (0 ≤ p.x.toInt ∧ p.x.toInt < g.width) ∧ 0 ≤ p.y.toInt ∧ p.y.toInt < g.height := by
  constructor
  · rintro ⟨c, found⟩
    obtain ⟨x, y, column, row, here⟩ := get?_eq_some_iff.mp found
    obtain ⟨left, above⟩ := cell?_bounds even here
    omega
  · rintro ⟨⟨west, east⟩, north, south⟩
    obtain ⟨x, column⟩ := Int.eq_ofNat_of_zero_le west
    obtain ⟨y, line⟩ := Int.eq_ofNat_of_zero_le north
    have below : y < g.rows.length := by
      rw [line] at south
      exact Int.ofNat_lt.mp south
    have within : x < g.rows[y].length := by
      rw [even _ (List.getElem_mem below)]
      rw [column] at east
      exact Int.ofNat_lt.mp east
    refine ⟨g.rows[y][x], get?_eq_some_iff.mpr ⟨x, y, column, line, ?_⟩⟩
    exact cellAt_eq_some_iff.mpr ⟨_, List.getElem?_eq_getElem below, List.getElem?_eq_getElem within⟩

theorem Rectangular.even (rectangular : Rectangular g.rows) : g.Even := by
  obtain ⟨first, head, -, rows⟩ := rectangular
  intro row present
  rw [rows row present, width, head, Option.map_some, Option.getD_some]

theorem Accepted.charted (accepted : Accepted g.rows extra) (fits : g.Fits)
    (start : cellAt g.rows x y = some Cell.start) (at_start : g.start = place x y) : g.Charted := by
  obtain ⟨rectangular, -, -, once⟩ := accepted
  have even := rectangular.even
  have begins : g.get? g.start = some Cell.start := at_start ▸ get?_place even fits start
  refine ⟨begins, fun p found => ?_, ?_, fun p c => get?_eq_some_iff, fun p => exists_get?_iff even,
    fun p => isWall_iff, fun c p => mem_find_iff_get? even fits, fun c => pairwise_find even fits,
    fun c => nodup_find even fits⟩
  · obtain ⟨x', y', there, rfl⟩ := mem_find.mp ((mem_find_iff_get? even fits).mpr found)
    obtain ⟨rfl, rfl⟩ := once x' y' x y there start
    exact at_start.symm
  · rw [isWall, begins]
    rfl

theorem parse_verdict (rows : List (List Char)) (extra : List Char) :
    (∃ g, parse rows extra = .ok g ∧ Accepted rows extra ∧ g.rows = rows ∧
      ∃ x y, cellAt rows x y = some Cell.start ∧ g.start = place x y) ∨
    ∃ f, parse rows extra = .error f ∧ Rejected rows extra f := by
  rw [parse]
  cases rows with
  | nil => exact .inr ⟨.emptyMap, rfl, .empty nofun⟩
  | cons top below =>
    by_cases bare : top = []
    · subst bare
      exact .inr ⟨.emptyMap, rfl, .empty fun first head => (Option.some.inj head).symm⟩
    · have width : ((top :: below).head?.map List.length).getD 0 = top.length := rfl
      have cells : top.length ≠ 0 := fun none => bare (List.length_eq_zero_iff.mp none)
      simp only [width, if_neg cells]
      cases uneven : ragged? top.length (top :: below) with
      | some found =>
        obtain ⟨y, row⟩ := found
        obtain ⟨here, longer, above⟩ := ragged?_eq_some uneven
        exact .inr ⟨_, rfl, .ragged rfl bare here longer above⟩
      | none =>
        have rectangular : Rectangular (top :: below) :=
          ⟨top, rfl, bare, fun row present => even_of_ragged? uneven present⟩
        have read : Verdict (top :: below) extra 0 (0 + (top :: below).length) (scan extra 0 none (top :: below)) :=
          scan_verdict .origin fun i => by rw [Nat.zero_add]
        cases scanned : scan extra 0 none (top :: below) with
        | error f =>
          rw [scanned] at read
          obtain ⟨x, y, offends, first⟩ := read
          exact .inr ⟨f, rfl, .cell rectangular offends first⟩
        | ok last =>
          rw [scanned, Nat.zero_add] at read
          cases last with
          | none => exact .inr ⟨.noStart, rfl, Clean.noStart read rectangular⟩
          | some p =>
            obtain ⟨accepted, start⟩ := Clean.accepted read rectangular
            exact .inl ⟨⟨top :: below, p⟩, rfl, accepted, rfl, start⟩

/-- A map that is read has the rows that were given, all equally long, and its start is a start cell. -/
theorem parse_ok (read : parse rows extra = .ok g) :
    g.rows = rows ∧ g.Even ∧ (g.Fits → g.get? g.start = some Cell.start) := by
  rcases parse_verdict rows extra with ⟨g', read', accepted, rfl, x, y, start, at_start⟩ | ⟨f, failed, -⟩
  · obtain rfl := Except.ok.inj (read.symm.trans read')
    exact ⟨rfl, accepted.rectangular.even, fun fits => (accepted.charted fits start at_start).start⟩
  · rw [failed] at read
    cases read

/-- Rows are read as a map if and only if they are one, and are rejected for the first thing that is wrong with
them. As long as the size of the map is a 32-bit number, its start, its cells and a search for them are as drawn. -/
theorem parse_iff_accepted (rows : List (List Char)) (extra : List Char) :
    ((∃ g, parse rows extra = .ok g) ↔ Accepted rows extra) ∧
    (∀ f, parse rows extra = .error f ↔ Rejected rows extra f) ∧
    ∀ g, parse rows extra = .ok g → g.rows = rows ∧ (g.Fits → g.Charted) := by
  rcases parse_verdict rows extra with ⟨g, read, accepted, rfl, x, y, start, at_start⟩ | ⟨f, failed, rejected⟩
  · refine ⟨iff_of_true ⟨g, read⟩ accepted, fun f => ?_, fun g' read' => ?_⟩
    · rw [read]
      exact iff_of_false nofun accepted.not_rejected
    · obtain rfl := Except.ok.inj (read.symm.trans read')
      exact ⟨rfl, fun fits => accepted.charted fits start at_start⟩
  · rw [failed]
    refine ⟨iff_of_false nofun fun accepted => accepted.not_rejected rejected, fun f' => ?_, nofun⟩
    rw [Except.error.injEq]
    exact ⟨fun same => same ▸ rejected, rejected.unique⟩

theorem parse_iff_accepted_yard :
    let rows := [['#', 'S', '*'], ['*', '.', '*']]
    let yard : Grid := ⟨rows, place 1 0⟩
    parse rows ['*'] = .ok yard ∧ yard.Fits ∧ yard.Charted ∧
      Rejected [['S', '.'], ['S', '?']] ['*'] .secondStart := by
  intro rows yard
  have read : parse rows ['*'] = .ok yard := rfl
  have fits : yard.Fits := ⟨by decide, by decide⟩
  obtain ⟨-, -, charted⟩ := parse_iff_accepted rows ['*']
  obtain ⟨-, rejected, -⟩ := parse_iff_accepted [['S', '.'], ['S', '?']] ['*']
  exact ⟨read, fits, (charted yard read).2 fits, (rejected .secondStart).mp rfl⟩

end BlockPlay.Grid
