import OaasIot.Lib.Decimal
import OaasIot.Lib.Life
import OaasIot.Lib.OrdMap

/-!
# The game of life on tiles (`tools/pixel-canvas/wasm-guest-rs/src/lib.rs`)

A canvas is `cols * rows` objects of 32 by 32 cells, each with an entry `"x:y"` for a colour; white is dead. `golStep`
reads them into one grid and writes the cells of the next that differ. The colour of a newborn, the average of its
neighbours', **can be white**, and a cell that dies is whitened under one text of its key, while **others** are read.
-/

namespace Canvas

open List Life

def size : Nat := 32
def white : Nat := 0xFFFFFF

/-! ## Colours -/

def hexDigit (b : UInt8) : Option Nat :=
  if 0x30 ≤ b ∧ b ≤ 0x39 then some (b.toNat - 0x30)
  else if 0x41 ≤ b ∧ b ≤ 0x46 then some (b.toNat - 0x37)
  else if 0x61 ≤ b ∧ b ≤ 0x66 then some (b.toNat - 0x57)
  else none

/-- `u32::from_str_radix` takes a plus sign; what it refuses is white (`lib.rs:54-57`). -/
def parseColor (hex : Bytes) : Nat :=
  let hex := if hex.head? = some 0x23 then hex.tail else hex
  let hex := if hex.head? = some 0x2B then hex.tail else hex
  match hex.mapM hexDigit with
  | none => white
  | some digits =>
    let value := digits.foldl (fun n d => n * 16 + d) 0
    if digits ≠ [] ∧ value < 2 ^ 32 then value else white

def channel (shift color : Nat) : Nat := color / 2 ^ shift % 256

def hexUpper (d : Nat) : UInt8 := .ofNat (if d < 10 then 0x30 + d else 0x37 + d)

def formatColor (c : Nat) : Bytes :=
  0x23 :: [16, 8, 0].flatMap fun shift => [hexUpper (channel shift c / 16), hexUpper (channel shift c % 16)]

/-- Rounded to the nearest; a mean is below 256, so shifting it and taking `|` is adding (`lib.rs:70-82`). -/
def averageColors (colors : List Nat) : Nat :=
  let n := colors.length
  let mean := fun shift => ((colors.map (channel shift)).sum + n / 2) / n
  mean 16 * 2 ^ 16 + mean 8 * 2 ^ 8 + mean 0

/-! ## Tiles -/

/-- The entries of an object, in the order `get_all` lists them. -/
abbrev Tile := OrdMap Bytes Bytes

/-- What `serde_json` reads and writes here: the payload, and the text of a colour. -/
structure Serde where
  golInput : Bytes → Except String (Nat × Nat)
  string : Bytes → Option Bytes
  toVec : Bytes → Bytes
  string_toVec : ∀ s, utf8Valid s = true → string (toVec s) = some s

/-- The error of each call to the host, if it has one. -/
structure Host where
  object : Cell → Option String
  getAll : Cell → Option String
  setMany : Cell → Option String

inductive Response
  | okay (births deaths : Nat)
  | invalidRequest (text : String)
  | systemError (text : String)

def parseKey (key : Bytes) : Option Cell :=
  if key.head? = some 0x5F ∨ 0x3A ∉ key then none
  else do
    let lx ← parseU64 (key.takeWhile (· ≠ 0x3A))
    let ly ← parseU64 (key.dropWhile (· ≠ 0x3A)).tail
    if size ≤ lx.toNat ∨ size ≤ ly.toNat then none else some (lx.toNat, ly.toNat)

def cellKey (cell : Cell) : Bytes := decimal cell.1 ++ 0x3A :: decimal cell.2

def globalCell (tile cell : Cell) : Cell := (tile.1 * size + cell.1, tile.2 * size + cell.2)

/-- A JSON text, or else the bytes as they are (`lib.rs:184-195`). -/
def entryColor (serde : Serde) (data : Bytes) : Option Nat :=
  ((serde.string data).or (if utf8Valid data = true then some data else none)).map parseColor

def readEntry (serde : Serde) (tile : Cell) (entry : Bytes × Bytes) : Option (Cell × Nat) := do
  let cell ← parseKey entry.1
  let color ← entryColor serde entry.2
  if color = white then none else some (globalCell tile cell, color)

/-- The cell in column `gx` and row `gy` is `grid[gy * total_w + gx]`. -/
structure Grid where
  totalW : Nat
  totalH : Nat
  color : Cell → Nat

def buildGrid (serde : Serde) (cols rows : Nat) (tiles : Cell → Tile) : Grid where
  totalW := cols * size
  totalH := rows * size
  color := ((rowByRow cols rows).flatMap fun tile => (tiles tile).toList.filterMap (readEntry serde tile)).foldl
    (fun grid x => Function.update grid x.1 x.2) fun _ => white

/-! ## The next generation -/

def offsets : List (Int × Int) :=
  ([-1, 0, 1].flatMap fun dy => [-1, 0, 1].map fun dx => (dx, dy)).filter (· ≠ (0, 0))

def neighborCells (grid : Grid) (p : Cell) : List Cell :=
  offsets.filterMap fun d =>
    let nx : Int := p.1 + d.1
    let ny : Int := p.2 + d.2
    if nx < 0 ∨ grid.totalW ≤ nx ∨ ny < 0 ∨ grid.totalH ≤ ny then none else some (nx.toNat, ny.toNat)

def neighbors (grid : Grid) (p : Cell) : List Nat := ((neighborCells grid p).map grid.color).filter (· ≠ white)

structure Generation where
  next : Cell → Nat
  births : Nat
  deaths : Nat

/-- One turn of the loop over the cells (`lib.rs:210-247`). -/
def stepCell (grid : Grid) (g : Generation) (p : Cell) : Generation :=
  let alive := grid.color p ≠ white
  let buf := neighbors grid p
  if alive ∧ (buf.length = 2 ∨ buf.length = 3) then { g with next := Function.update g.next p (grid.color p) }
  else if ¬alive ∧ buf.length = 3 then
    { g with next := Function.update g.next p (averageColors buf), births := g.births + 1 }
  else if alive then { g with deaths := g.deaths + 1 }
  else g

def nextGeneration (grid : Grid) : Generation :=
  (rowByRow grid.totalW grid.totalH).foldl (stepCell grid) ⟨fun _ => white, 0, 0⟩

/-! ## The call -/

def updates (serde : Serde) (grid : Grid) (next : Cell → Nat) (tile : Cell) : List (Bytes × Bytes) :=
  (rowByRow size size).filterMap fun cell =>
    let p := globalCell tile cell
    if grid.color p ≠ next p then some (cellKey cell, serde.toVec (formatColor (next p))) else none

def tileName (tile : Cell) : String := toString tile.1 ++ "-" ++ toString tile.2

def fetchError (host : Host) (tile : Cell) : Option String :=
  match host.object tile with
  | some e => some ("Failed to get proxy for canvas-" ++ tileName tile ++ ": " ++ e)
  | none => (host.getAll tile).map ("Failed to get data for canvas-" ++ tileName tile ++ ": " ++ ·)

/-- The tiles before one that fails stay written. -/
def writeBack (host : Host) (updates : Cell → List (Bytes × Bytes)) :
    List Cell → (Cell → Tile) → Option String × (Cell → Tile)
  | [], tiles => (none, tiles)
  | tile :: rest, tiles =>
    if updates tile = [] then writeBack host updates rest tiles
    else
      match host.setMany tile with
      | some e => (some ("Failed to write tile " ++ tileName tile ++ ": " ++ e), tiles)
      | none => writeBack host updates rest (Function.update tiles tile ((tiles tile).insertMany (updates tile)))

def handleGolStep (serde : Serde) (host : Host) (payload : Option Bytes) (tiles : Cell → Tile) :
    Response × (Cell → Tile) :=
  match payload.map serde.golInput with
  | none => (.invalidRequest "Missing payload: \x7b\"cols\": N, \"rows\": N\x7d", tiles)
  | some (.error e) => (.invalidRequest ("Invalid JSON: " ++ e), tiles)
  | some (.ok (cols, rows)) =>
    match (rowByRow cols rows).findSome? (fetchError host) with
    | some text => (.systemError text, tiles)
    | none =>
      let grid := buildGrid serde cols rows tiles
      let g := nextGeneration grid
      match writeBack host (updates serde grid g.next) (rowByRow cols rows) tiles with
      | (some text, tiles) => (.systemError text, tiles)
      | (none, tiles) => (.okay g.births g.deaths, tiles)

/-! ## What is alive -/

def Colored (serde : Serde) (data : Bytes) : Prop := ∃ color, entryColor serde data = some color ∧ color ≠ white

/-- Some entry of the tile, under any text of the cell's key, has a colour. -/
def Lit (serde : Serde) (t : Tile) (cell : Cell) : Prop :=
  ∃ key data, t.get key = some data ∧ parseKey key = some cell ∧ Colored serde data

/-- An entry under a text that is not the one `golStep` writes. -/
def Aliased (serde : Serde) (t : Tile) (cell : Cell) : Prop :=
  ∃ key data, t.get key = some data ∧ parseKey key = some cell ∧ Colored serde data ∧ key ≠ cellKey cell

/-- Three colours whose average rounds to white: every channel sums to 764 or 765. -/
def Whitish (colors : List Nat) : Prop := ∀ shift ∈ [16, 8, 0], 764 ≤ (colors.map (channel shift)).sum

instance (colors : List Nat) : Decidable (Whitish colors) := inferInstanceAs (Decidable (∀ shift ∈ [16, 8, 0], _))

def tileOf (p : Cell) : Cell := (p.1 / size, p.2 / size)
def localCell (p : Cell) : Cell := (p.1 % size, p.2 % size)

structure Board where
  serde : Serde
  cols : Nat
  rows : Nat
  tiles : Cell → Tile

namespace Board
variable (b : Board)

def grid : Grid := buildGrid b.serde b.cols b.rows b.tiles
def Contains (p : Cell) : Prop := p.1 < b.cols * size ∧ p.2 < b.rows * size
def Alive (p : Cell) : Prop := b.Contains p ∧ Lit b.serde (b.tiles (tileOf p)) (localCell p)

end Board

/-! ## Colours, read and written -/

theorem hexDigit_hexUpper :
    ∀ d < 16, hexDigit (hexUpper d) = some d ∧ hexUpper d ≤ 0x7F ∧ hexUpper d ≠ 0x2B := by decide

theorem channel_lt (shift color : Nat) : channel shift color < 256 := Nat.mod_lt _ (by decide)

theorem channel_digits (shift c : Nat) : channel shift c / 16 < 16 ∧ channel shift c % 16 < 16 := by
  have := channel_lt shift c
  omega

theorem parseColor_formatColor {c : Nat} (h : c < 2 ^ 24) : parseColor (formatColor c) = c := by
  have hi := fun shift => hexDigit_hexUpper _ (channel_digits shift c).1
  have lo := fun shift => hexDigit_hexUpper _ (channel_digits shift c).2
  have hvalue : [channel 16 c / 16, channel 16 c % 16, channel 8 c / 16, channel 8 c % 16, channel 0 c / 16,
      channel 0 c % 16].foldl (fun n d => n * 16 + d) 0 = c := by
    simp only [foldl_cons, foldl_nil, channel]
    omega
  simp only [parseColor, formatColor, flatMap_cons, flatMap_nil, cons_append, nil_append, append_nil, head?_cons, tail_cons,
    if_true, Option.some.injEq, (hi 16).2.2, if_false, mapM_cons, mapM_nil, (hi _).1, (lo _).1, Option.pure_def,
    Option.bind_eq_bind, Option.bind_some]
  rw [if_pos ⟨cons_ne_nil _ _, by rw [hvalue]; omega⟩, hvalue]

theorem entryColor_formatColor (serde : Serde) {c : Nat} (h : c < 2 ^ 24) :
    entryColor serde (serde.toVec (formatColor c)) = some c := by
  have hascii : ∀ b ∈ formatColor c, b ≤ 0x7F := by
    intro b hb
    simp only [formatColor, mem_cons, mem_flatMap, not_mem_nil, or_false] at hb
    obtain rfl | ⟨shift, _, rfl | rfl⟩ := hb
    · decide
    · exact (hexDigit_hexUpper _ (channel_digits shift c).1).2.1
    · exact (hexDigit_hexUpper _ (channel_digits shift c).2).2.1
  rw [entryColor, serde.string_toVec _ (utf8Valid_ascii hascii), Option.some_or, Option.map_some,
    parseColor_formatColor h]

theorem averageColors_of_three {colors : List Nat} (h : colors.length = 3) :
    averageColors colors < 2 ^ 24 ∧ (averageColors colors = white ↔ Whitish colors) := by
  obtain ⟨a, b, c, rfl⟩ := length_eq_three.1 h
  have hlt := fun shift => And.intro (channel_lt shift a) (And.intro (channel_lt shift b) (channel_lt shift c))
  have h16 := hlt 16
  have h8 := hlt 8
  have h0 := hlt 0
  simp only [averageColors, Whitish, white, length_cons, length_nil, map_cons, map_nil, sum_cons, sum_nil,
    forall_mem_cons, not_mem_nil, false_implies, implies_true, and_true]
  omega

/-! ## Keys and coordinates -/

theorem parseKey_cellKey {cell : Cell} (h : cell ∈ rowByRow size size) : parseKey (cellKey cell) = some cell := by
  have hnum : ∀ n < 32, parseU64 (decimal n) = some (.ofNat n) ∧ (UInt64.ofNat n).toNat = n ∧
      ¬(decimal n ++ [0x3A]).head? = some 0x5F ∧ 0x3A ∉ decimal n := by
    decide
  obtain ⟨hx, hy⟩ := mem_rowByRow.1 h
  obtain ⟨hparse, hval, hhead, hmem⟩ := hnum _ hx
  have hcolon : ∀ b ∈ decimal cell.1, b ≠ 0x3A := fun b hb heq => hmem (heq ▸ hb)
  obtain ⟨hparse', hval', _⟩ := hnum _ hy
  have htake : (cellKey cell).takeWhile (· ≠ 0x3A) = decimal cell.1 := by
    rw [cellKey, takeWhile_append_of_pos (by simpa using hcolon)]
    simp
  have hdrop : (cellKey cell).dropWhile (· ≠ 0x3A) = 0x3A :: decimal cell.2 := by
    rw [cellKey, dropWhile_append_of_pos (by simpa using hcolon)]
    simp
  have hnot : ¬((cellKey cell).head? = some 0x5F ∨ 0x3A ∉ cellKey cell) := by
    simpa [cellKey] using hhead
  rw [parseKey, if_neg hnot, htake, hdrop, tail_cons, hparse, hparse']
  simp [hval, hval', hx, hy]

theorem mem_of_parseKey {key : Bytes} {cell : Cell} (h : parseKey key = some cell) : cell ∈ rowByRow size size := by
  unfold parseKey at h
  split at h
  · cases h
  · simp only [Option.bind_eq_bind, Option.bind_eq_some_iff, Option.ite_none_left_eq_some, not_or, not_le,
      Option.some.injEq] at h
    obtain ⟨lx, _, ly, _, ⟨hx, hy⟩, rfl⟩ := h
    exact mem_rowByRow.2 ⟨hx, hy⟩

theorem globalCell_eq_iff {tile cell p : Cell} (h : cell ∈ rowByRow size size) :
    globalCell tile cell = p ↔ tile = tileOf p ∧ cell = localCell p := by
  obtain ⟨hx, hy⟩ := mem_rowByRow.1 h
  simp only [globalCell, tileOf, localCell, Prod.ext_iff, size] at *
  omega

theorem localCell_mem (p : Cell) : localCell p ∈ rowByRow size size :=
  mem_rowByRow.2 ⟨Nat.mod_lt _ (by decide), Nat.mod_lt _ (by decide)⟩

theorem globalCell_localCell (p : Cell) : globalCell (tileOf p) (localCell p) = p :=
  (globalCell_eq_iff (localCell_mem p)).2 ⟨rfl, rfl⟩

/-! ## The grid -/

theorem foldl_update_ne_white {l : List (Cell × Nat)} (hl : ∀ x ∈ l, x.2 ≠ white) (g : Cell → Nat) (p : Cell) :
    l.foldl (fun grid x => Function.update grid x.1 x.2) g p ≠ white ↔ g p ≠ white ∨ p ∈ l.map Prod.fst := by
  induction l generalizing g with
  | nil => simp
  | cons x l ih =>
    rw [foldl_cons, ih fun y hy => hl y (mem_cons_of_mem _ hy), map_cons, mem_cons]
    by_cases hp : p = x.1
    · subst hp
      simp [hl x mem_cons_self]
    · rw [Function.update_of_ne hp]
      simp [hp]

theorem mem_neighborCells {grid : Grid} {p q : Cell} :
    q ∈ neighborCells grid p ↔ Adjacent p q ∧ q.1 < grid.totalW ∧ q.2 < grid.totalH := by
  have hoff : ∀ d : Int × Int, d ∈ offsets ↔ d ≠ (0, 0) ∧ -1 ≤ d.1 ∧ d.1 ≤ 1 ∧ -1 ≤ d.2 ∧ d.2 ≤ 1 := by
    rintro ⟨dx, dy⟩
    simp only [offsets, mem_filter, mem_flatMap, mem_map, mem_cons, not_mem_nil, or_false, Prod.mk.injEq,
      decide_eq_true_eq, ne_eq]
    constructor
    · rintro ⟨⟨y, hy, x, hx, rfl, rfl⟩, hne⟩
      omega
    · rintro ⟨hne, h⟩
      exact ⟨⟨dy, by omega, dx, by omega, rfl, rfl⟩, hne⟩
  simp only [neighborCells, mem_filterMap, hoff, Option.ite_none_left_eq_some, Option.some.injEq, Adjacent, ne_eq,
    Prod.ext_iff]
  constructor
  · rintro ⟨d, hd, hin, hx, hy⟩
    omega
  · intro hq
    exact ⟨((q.1 : Int) - p.1, (q.2 : Int) - p.2), by omega, by omega, by omega, by omega⟩

theorem nodup_neighborCells (grid : Grid) (p : Cell) : (neighborCells grid p).Nodup := by
  refine Nodup.filterMap (fun d d' q hd hd' => ?_) (by decide)
  simp only [Option.mem_def, Option.ite_none_left_eq_some, Option.some.injEq, Prod.ext_iff] at *
  omega

namespace Board
variable {b : Board} {p : Cell}

theorem contains_iff : b.Contains p ↔ tileOf p ∈ rowByRow b.cols b.rows := by
  rw [mem_rowByRow]
  exact and_congr (Nat.div_lt_iff_lt_mul (by decide)).symm (Nat.div_lt_iff_lt_mul (by decide)).symm

theorem color_ne_white (hp : b.Contains p) : b.grid.color p ≠ white ↔ b.Alive p := by
  have hread : ∀ {tile e x}, readEntry b.serde tile e = some x ↔ ∃ cell, parseKey e.1 = some cell ∧
      ∃ color, entryColor b.serde e.2 = some color ∧ color ≠ white ∧ (globalCell tile cell, color) = x := by
    intro tile e x
    simp [readEntry, Option.bind_eq_some_iff]
  rw [grid, buildGrid, foldl_update_ne_white]
  · simp only [ne_eq, not_true_eq_false, false_or, mem_map, mem_flatMap, mem_filterMap]
    constructor
    · rintro ⟨x, ⟨tile, _, e, hmem, hentry⟩, hx⟩
      obtain ⟨cell, hkey, color, hcolor, hne, rfl⟩ := hread.1 hentry
      obtain ⟨rfl, rfl⟩ := (globalCell_eq_iff (mem_of_parseKey hkey)).1 hx
      exact ⟨hp, e.1, e.2, OrdMap.get_eq_some.2 hmem, hkey, color, hcolor, hne⟩
    · rintro ⟨_, key, data, hget, hkey, color, hcolor, hne⟩
      exact ⟨_, ⟨tileOf p, contains_iff.1 hp, (key, data), OrdMap.get_eq_some.1 hget,
        hread.2 ⟨_, hkey, color, hcolor, hne, rfl⟩⟩, globalCell_localCell p⟩
  · intro x hx
    simp only [mem_flatMap, mem_filterMap] at hx
    obtain ⟨tile, _, e, _, hentry⟩ := hx
    obtain ⟨_, _, color, _, hne, rfl⟩ := hread.1 hentry
    exact hne

theorem length_neighbors (b : Board) (p : Cell) : (neighbors b.grid p).length = liveNeighbours b.Alive p := by
  rw [neighbors, ← countP_eq_length_filter, countP_map, liveNeighbours]
  refine (ncard_eq_countP (nodup_neighborCells _ p) fun q => ?_).symm
  simp only [Set.mem_ofPred_eq, mem_neighborCells, Function.comp_apply, decide_eq_true_eq]
  constructor
  · rintro ⟨hadj, halive⟩
    exact ⟨⟨hadj, halive.1⟩, (color_ne_white halive.1).2 halive⟩
  · rintro ⟨⟨hadj, hq⟩, hne⟩
    exact ⟨hadj, (color_ne_white hq).1 hne⟩

end Board

/-! ## The loop over the cells -/

section
variable (grid : Grid) (p : Cell)

abbrev Born : Prop := grid.color p = white ∧ (neighbors grid p).length = 3
abbrev Dies : Prop := grid.color p ≠ white ∧ (neighbors grid p).length ≠ 2 ∧ (neighbors grid p).length ≠ 3

def nextColor : Nat :=
  if Born grid p then averageColors (neighbors grid p) else if Dies grid p then white else grid.color p

end

section
variable {grid : Grid} {p : Cell}

theorem stepCell_eq {g : Generation} (hg : g.next p = white) :
    stepCell grid g p = ⟨Function.update g.next p (nextColor grid p),
      g.births + (if Born grid p then 1 else 0), g.deaths + if Dies grid p then 1 else 0⟩ := by
  -- a cell that is left out keeps the white the grid starts with
  have hself : Function.update g.next p white = g.next := by rw [← hg, Function.update_eq_self]
  by_cases halive : grid.color p = white <;> by_cases h3 : (neighbors grid p).length = 3
  · simp [stepCell, nextColor, Born, Dies, halive, h3]
  · simp [stepCell, nextColor, Born, Dies, halive, h3, hself]
  · simp [stepCell, nextColor, Born, Dies, halive, h3]
  · by_cases h2 : (neighbors grid p).length = 2
    · simp [stepCell, nextColor, Born, Dies, halive, h2]
    · simp [stepCell, nextColor, Born, Dies, halive, h2, h3, hself]

theorem foldl_stepCell {l : List Cell} (hnd : l.Nodup) {g : Generation} (hg : ∀ p ∈ l, g.next p = white) :
    l.foldl (stepCell grid) g = ⟨fun p => if p ∈ l then nextColor grid p else g.next p,
      g.births + l.countP (Born grid ·), g.deaths + l.countP (Dies grid ·)⟩ := by
  induction l generalizing g with
  | nil => simp
  | cons q l ih =>
    obtain ⟨hq, hnd⟩ := nodup_cons.1 hnd
    have hother : ∀ p ∈ l, Function.update g.next q (nextColor grid q) p = white := fun p hp => by
      have hpq : p ≠ q := fun he => hq (he ▸ hp)
      exact (Function.update_of_ne hpq _ _).trans (hg p (mem_cons_of_mem q hp))
    rw [foldl_cons, stepCell_eq (hg q mem_cons_self), ih hnd hother, countP_cons, countP_cons]
    simp only [decide_eq_true_eq, Generation.mk.injEq]
    refine ⟨funext fun p => ?_, by omega, by omega⟩
    by_cases hpq : p = q
    · subst hpq
      simp [hq]
    · simp [hpq]

theorem nextColor_lt (hne : grid.color p ≠ nextColor grid p) : nextColor grid p < 2 ^ 24 := by
  unfold nextColor at hne ⊢
  split
  · rename_i hborn
    exact (averageColors_of_three hborn.2).1
  · rename_i hborn
    rw [if_neg hborn] at hne
    split
    · decide
    · rename_i hdies
      exact absurd (if_neg hdies).symm hne

theorem nextGeneration_eq (grid : Grid) :
    nextGeneration grid =
      ⟨fun p => if p ∈ rowByRow grid.totalW grid.totalH then nextColor grid p else white,
        (rowByRow grid.totalW grid.totalH).countP (Born grid ·), (rowByRow grid.totalW grid.totalH).countP (Dies grid ·)⟩ := by
  rw [nextGeneration, foldl_stepCell (nodup_rowByRow _ _) fun _ _ => rfl]
  simp only [Nat.zero_add]

end

/-! ## The tiles after the call -/

theorem writeBack_eq {host : Host} {updates : Cell → List (Bytes × Bytes)} {l : List Cell} (hnd : l.Nodup)
    {tiles tiles' : Cell → Tile} (h : writeBack host updates l tiles = (none, tiles')) (tile : Cell) :
    tiles' tile = if tile ∈ l then (tiles tile).insertMany (updates tile) else tiles tile := by
  induction l generalizing tiles with
  | nil =>
    cases h
    simp
  | cons t l ih =>
    obtain ⟨ht, hnd⟩ := nodup_cons.1 hnd
    unfold writeBack at h
    split at h
    · rename_i hnone
      rw [ih hnd h]
      by_cases hte : tile = t
      · subst hte
        simp [ht, hnone]
      · simp [hte]
    · split at h
      · cases h
      · rw [ih hnd h]
        by_cases hte : tile = t
        · subst hte
          simp [ht]
        · simp [hte]

theorem lit_insertMany_updates {serde : Serde} {grid : Grid} {next : Cell → Nat} (t : Tile) {p : Cell}
    (hnext : grid.color p ≠ next p → next p < 2 ^ 24) :
    Lit serde (t.insertMany (updates serde grid next (tileOf p))) (localCell p) ↔
      if grid.color p = next p then Lit serde t (localCell p) else next p ≠ white ∨ Aliased serde t (localCell p) := by
  have hmem : ∀ {kv}, kv ∈ updates serde grid next (tileOf p) ↔ ∃ cell ∈ rowByRow size size,
      grid.color (globalCell (tileOf p) cell) ≠ next (globalCell (tileOf p) cell) ∧
        (cellKey cell, serde.toVec (formatColor (next (globalCell (tileOf p) cell)))) = kv := by
    simp only [updates, mem_filterMap, Option.ite_none_right_eq_some, Option.some.injEq, implies_true]
  -- of the texts that are read as this cell, only the printed one can be written
  have hwritten : ∀ {key data}, parseKey key = some (localCell p) → (key, data) ∈ updates serde grid next (tileOf p) →
      key = cellKey (localCell p) ∧ grid.color p ≠ next p ∧ data = serde.toVec (formatColor (next p)) := by
    intro key data hkey hkv
    obtain ⟨cell', hcell', hne, heq⟩ := hmem.1 hkv
    obtain ⟨rfl, rfl⟩ := Prod.mk.inj heq
    obtain rfl := Option.some.inj ((parseKey_cellKey hcell').symm.trans hkey)
    rw [globalCell_localCell] at hne ⊢
    exact ⟨rfl, hne, rfl⟩
  have hkept : ∀ {key}, parseKey key = some (localCell p) → ¬(key = cellKey (localCell p) ∧ grid.color p ≠ next p) →
      (t.insertMany (updates serde grid next (tileOf p))).get key = t.get key := by
    intro key hkey hnot
    refine OrdMap.get_insertMany_of_notMem t fun hkeys => ?_
    obtain ⟨kv, hkv, rfl⟩ := mem_map.1 hkeys
    obtain ⟨heq, hne, _⟩ := hwritten hkey hkv
    exact hnot ⟨heq, hne⟩
  split
  · rename_i hsame
    refine exists_congr fun key => exists_congr fun data => and_congr_left fun ⟨hkey, _⟩ => ?_
    rw [hkept hkey fun h => h.2 hsame]
  · rename_i hdiff
    have hkey := parseKey_cellKey (localCell_mem p)
    obtain ⟨data, hkv, hget⟩ := OrdMap.get_insertMany_of_key t
      (mem_map_of_mem (f := Prod.fst) (hmem.2 ⟨_, localCell_mem p, by rwa [globalCell_localCell], rfl⟩))
    obtain ⟨_, _, rfl⟩ := hwritten hkey hkv
    have hcolor := entryColor_formatColor serde (hnext hdiff)
    constructor
    · rintro ⟨key, data, hget', hkey', hcol⟩
      by_cases hk : key = cellKey (localCell p)
      · subst hk
        obtain rfl := Option.some.inj (hget.symm.trans hget')
        obtain ⟨color, hread, hne⟩ := hcol
        obtain rfl := Option.some.inj (hcolor.symm.trans hread)
        exact .inl hne
      · exact .inr ⟨key, data, by rwa [hkept hkey' fun h => hk h.1] at hget', hkey', hcol, hk⟩
    · rintro (hne | ⟨key, data, hget', hkey', hcol, hk⟩)
      · exact ⟨_, _, hget, hkey, _, hcolor, hne⟩
      · exact ⟨key, data, by rwa [hkept hkey' fun h => hk h.1], hkey', hcol⟩

namespace Board
variable {b : Board} {host : Host} {births deaths : Nat} {payload : Bytes} {tiles' : Cell → Tile} {p : Cell}

theorem handleGolStep_okay (hinput : b.serde.golInput payload = .ok (b.cols, b.rows))
    (h : handleGolStep b.serde host (some payload) b.tiles = (.okay births deaths, tiles')) :
    writeBack host (updates b.serde b.grid (nextGeneration b.grid).next) (rowByRow b.cols b.rows) b.tiles =
        (none, tiles') ∧
      (nextGeneration b.grid).births = births ∧ (nextGeneration b.grid).deaths = deaths := by
  simp only [handleGolStep, Option.map_some, hinput] at h
  split at h
  · cases h
  · split at h
    · cases h
    · rename_i hwrite
      cases h
      exact ⟨hwrite, rfl, rfl⟩

theorem born_iff (hp : b.Contains p) : Born b.grid p ↔ ¬b.Alive p ∧ liveNeighbours b.Alive p = 3 := by
  rw [Born, length_neighbors, ← color_ne_white hp, not_not]

theorem dies_iff (hp : b.Contains p) :
    Dies b.grid p ↔ b.Alive p ∧ liveNeighbours b.Alive p ≠ 2 ∧ liveNeighbours b.Alive p ≠ 3 := by
  rw [Dies, length_neighbors, color_ne_white hp]

/-- **One cell**: what the call makes of it. -/
theorem alive_after (hinput : b.serde.golInput payload = .ok (b.cols, b.rows))
    (h : handleGolStep b.serde host (some payload) b.tiles = (.okay births deaths, tiles')) (hp : b.Contains p) :
    { b with tiles := tiles' }.Alive p ↔
      if Born b.grid p then ¬Whitish (neighbors b.grid p)
      else if Dies b.grid p then Aliased b.serde (b.tiles (tileOf p)) (localCell p)
      else b.Alive p := by
  have htiles := writeBack_eq (nodup_rowByRow b.cols b.rows) (handleGolStep_okay hinput h).1 (tileOf p)
  have hnext : (nextGeneration b.grid).next p = nextColor b.grid p := by
    rw [nextGeneration_eq]
    exact if_pos (mem_rowByRow.2 hp)
  have halive : b.Alive p ↔ Lit b.serde (b.tiles (tileOf p)) (localCell p) := and_iff_right hp
  have hafter : { b with tiles := tiles' }.Alive p ↔ Lit b.serde (tiles' (tileOf p)) (localCell p) := and_iff_right hp
  rw [hafter, htiles, if_pos (contains_iff.1 hp), lit_insertMany_updates _ (hnext ▸ nextColor_lt), hnext, ← halive]
  by_cases hborn : Born b.grid p
  · have hcolor : nextColor b.grid p = averageColors (neighbors b.grid p) := if_pos hborn
    rw [if_pos hborn, hcolor, ← color_ne_white hp, hborn.1, ← (averageColors_of_three hborn.2).2]
    by_cases hwhite : averageColors (neighbors b.grid p) = white
    · simp [hwhite]
    · simp [hwhite, Ne.symm hwhite]
  · by_cases hdies : Dies b.grid p
    · have hcolor : nextColor b.grid p = white := (if_neg hborn).trans (if_pos hdies)
      rw [if_neg hborn, if_pos hdies, hcolor, if_neg hdies.1]
      simp
    · have hcolor : nextColor b.grid p = b.grid.color p := (if_neg hborn).trans (if_neg hdies)
      rw [if_neg hborn, if_neg hdies, hcolor, if_pos rfl]

/-- **A step of the game of life**, unless a newborn is white or a dying cell has an entry under another text. -/
theorem golStep_iff (hinput : b.serde.golInput payload = .ok (b.cols, b.rows))
    (h : handleGolStep b.serde host (some payload) b.tiles = (.okay births deaths, tiles')) :
    IsStep b.Contains b.Alive { b with tiles := tiles' }.Alive births deaths ↔
      (∀ p, b.Contains p → ¬b.Alive p → liveNeighbours b.Alive p = 3 → ¬Whitish (neighbors b.grid p)) ∧
        ∀ p, b.Alive p → liveNeighbours b.Alive p ≠ 2 → liveNeighbours b.Alive p ≠ 3 →
          ¬Aliased b.serde (b.tiles (tileOf p)) (localCell p) := by
  constructor
  · intro hstep
    refine ⟨fun p hp hdead h3 => ?_, fun p hlive h2 h3 haliased => ?_⟩
    · have hlit := (hstep.cells p).2 ⟨hp, .inl ⟨hdead, h3⟩⟩
      rwa [alive_after hinput h hp, if_pos ((born_iff hp).2 ⟨hdead, h3⟩)] at hlit
    · have hdies := (dies_iff hlive.1).2 ⟨hlive, h2, h3⟩
      have hlit := alive_after hinput h hlive.1
      rw [if_neg fun hborn : Born b.grid p => hdies.1 hborn.1, if_pos hdies] at hlit
      obtain ⟨hdead, _⟩ | ⟨_, hn⟩ := ((hstep.cells p).1 (hlit.2 haliased)).2
      · exact hdead hlive
      · exact hn.elim h2 h3
  · rintro ⟨hborn, hdies⟩
    have hnext : ∀ {p}, b.Contains p → ({ b with tiles := tiles' }.Alive p ↔ Next b.Alive p) := by
      intro p hp
      rw [alive_after hinput h hp, Next]
      split
      · rename_i hb
        obtain ⟨hdead, h3⟩ := (born_iff hp).1 hb
        exact iff_of_true (hborn p hp hdead h3) (.inl ⟨hdead, h3⟩)
      · rename_i hb
        rw [born_iff hp] at hb
        split
        · rename_i hd
          obtain ⟨hlive, h2, h3⟩ := (dies_iff hp).1 hd
          exact iff_of_false (hdies p hlive h2 h3) (by tauto)
        · rename_i hd
          rw [dies_iff hp] at hd
          tauto
    obtain ⟨_, hbirths, hdeaths⟩ := handleGolStep_okay hinput h
    rw [nextGeneration_eq] at hbirths hdeaths
    refine IsStep.of_counts (fun p hp => hp.1) (fun p => ?_) ?_ ?_
    · exact ⟨fun hlit => ⟨hlit.1, (hnext hlit.1).1 hlit⟩, fun hp => (hnext hp.1).2 hp.2⟩
    · rw [← hbirths]
      refine (ncard_eq_countP (nodup_rowByRow _ _) fun p => ?_).symm
      rw [mem_rowByRow, decide_eq_true_eq]
      exact and_congr_right fun hp => (born_iff hp).symm
    · rw [← hdeaths]
      refine (ncard_eq_countP (nodup_rowByRow _ _) fun p => ?_).symm
      rw [mem_rowByRow, decide_eq_true_eq]
      exact and_congr_right fun hp => (dies_iff hp).symm

theorem writeBack_of_quiet {updates : Cell → List (Bytes × Bytes)} (hset : ∀ tile, host.setMany tile = none)
    (l : List Cell) (tiles : Cell → Tile) : (writeBack host updates l tiles).1 = none := by
  induction l generalizing tiles with
  | nil => rfl
  | cons tile l ih =>
    simp only [writeBack, hset]
    split
    · exact ih tiles
    · exact ih _

/-- The call fails only where the host does. -/
theorem handleGolStep_of_quiet (hinput : b.serde.golInput payload = .ok (b.cols, b.rows))
    (hobject : ∀ tile, host.object tile = none) (hget : ∀ tile, host.getAll tile = none)
    (hset : ∀ tile, host.setMany tile = none) :
    ∃ births deaths tiles', handleGolStep b.serde host (some payload) b.tiles = (.okay births deaths, tiles') := by
  have hfetch : (rowByRow b.cols b.rows).findSome? (fetchError host) = none := by
    simp [findSome?_eq_none_iff, fetchError, hobject, hget]
  simp only [handleGolStep, Option.map_some, hinput, hfetch]
  split
  · rename_i hwrite
    exact absurd (congrArg Prod.fst hwrite) (by simp [writeBack_of_quiet hset])
  · exact ⟨_, _, _, rfl⟩

/-- JSON texts without escapes. -/
def quoted : Serde where
  golInput := fun _ => .ok (1, 1)
  string := fun data => if data.head? = some 0x22 then some data.tail.dropLast else none
  toVec := fun s => 0x22 :: (s ++ [0x22])
  string_toVec := by simp

def painted (cells : List (Cell × Nat)) : Board :=
  ⟨quoted, 1, 1, fun _ => OrdMap.empty.insertMany (cells.map fun cell => (cellKey cell.1, formatColor cell.2))⟩

theorem painted_okay (cells : List (Cell × Nat)) : ∃ births deaths tiles',
    handleGolStep quoted ⟨fun _ => none, fun _ => none, fun _ => none⟩ (some []) (painted cells).tiles =
      (.okay births deaths, tiles') :=
  handleGolStep_of_quiet (b := painted cells) rfl (fun _ => rfl) (fun _ => rfl) fun _ => rfl

theorem red_cell_dies : ∃ host births deaths tiles',
    handleGolStep quoted host (some []) (painted [((0, 0), 0xFF0000)]).tiles = (.okay births deaths, tiles') ∧
      IsStep (painted [((0, 0), 0xFF0000)]).Contains (painted [((0, 0), 0xFF0000)]).Alive
        { painted [((0, 0), 0xFF0000)] with tiles := tiles' }.Alive births deaths := by
  obtain ⟨births, deaths, tiles', h⟩ := painted_okay [((0, 0), 0xFF0000)]
  have hkey : ∀ {tile key data cell}, ((painted [((0, 0), 0xFF0000)]).tiles tile).get key = some data →
      parseKey key = some cell → cell = (0, 0) ∧ key = cellKey cell := by
    intro tile key data cell hget hcell
    obtain ⟨rfl, _⟩ := Prod.mk.inj (mem_singleton.1 (OrdMap.get_eq_some.1 hget))
    obtain rfl := Option.some.inj ((parseKey_cellKey (localCell_mem (0, 0))).symm.trans hcell)
    exact ⟨rfl, rfl⟩
  refine ⟨_, births, deaths, tiles', h, (golStep_iff (b := painted _) rfl h).2 ⟨fun p _ _ h3 => ?_, fun p _ _ _ => ?_⟩⟩
  · -- with one cell alive, no cell has three neighbours
    have honly : {q | Adjacent p q ∧ (painted [((0, 0), 0xFF0000)]).Alive q} ⊆ {(0, 0)} := by
      rintro q ⟨_, ⟨hx, hy⟩, key, data, hget, hcell, _⟩
      have hlocal := (hkey hget hcell).1
      simp only [painted, localCell, size, Prod.mk.injEq] at hx hy hlocal
      exact Prod.ext (by omega) (by omega)
    have hle := Set.ncard_le_ncard honly
    rw [Set.ncard_singleton, ← liveNeighbours, h3] at hle
    exact absurd hle (by decide)
  · rintro ⟨key, data, hget, hcell, _, hne⟩
    exact hne (hkey hget hcell).2

def pale : Board := painted [((0, 0), 0xFEFFFF), ((1, 0), 0xFFFEFF), ((2, 0), 0xFFFFFE)]

/-- The cell below three pale ones is counted as born, and white. -/
theorem pale_newborn_is_white : ∃ host births deaths tiles',
    handleGolStep quoted host (some []) pale.tiles = (.okay births deaths, tiles') ∧
      Next pale.Alive (1, 1) ∧ ¬{ pale with tiles := tiles' }.Alive (1, 1) := by
  obtain ⟨births, deaths, tiles', h⟩ := painted_okay [((0, 0), 0xFEFFFF), ((1, 0), 0xFFFEFF), ((2, 0), 0xFFFFFE)]
  have hp : pale.Contains (1, 1) := by simp [Contains, pale, painted, size]
  have hborn : Born pale.grid (1, 1) := by decide +kernel
  have hafter := alive_after (b := pale) rfl h hp
  refine ⟨_, births, deaths, tiles', h, .inl ((born_iff hp).1 hborn), ?_⟩
  rw [hafter, if_pos hborn, not_not]
  decide +kernel

end Board

end Canvas
