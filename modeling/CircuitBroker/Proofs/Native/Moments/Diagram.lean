/-
  CircuitBroker/Proofs/Native/Moments/Diagram.lean
  ================================================
  **Which moment circuits have a diagram.**

  A wire shows in a moment the symbol last written on it, else a crossing (`ofMoment_eq`); a
  symbol is that of a gate on the wire (`cell_cases`).  A column
  is as wide as its widest symbol, so none is wider than its column (`length_le_width`); it
  has no width exactly if its moment is blank, showing symbols that are all empty
  (`width_eq_zero_iff`), and then there is no place for a link.  Such symbols can only be
  labels of custom gates (`exists_unlabelled`).
-/
import CircuitBroker.Native.Moments.Diagram
import CircuitBroker.Proofs.GateMatrix.Library
import CircuitBroker.Proofs.GateMatrix.Sizes
import CircuitBroker.Proofs.Native.Moments.Schedule
import CircuitBroker.Proofs.Traversal

namespace CircuitBroker

variable {R : Type}

/-! ## 1. Symbols -/

def MomentGate.custom? : MomentGate R → Option (CustomGate R)
  | .matrix g | .controlledMatrix g _ => some g
  | _ => none

variable [AngleLabel R]

/-- Only a label of a custom gate can be an empty symbol. -/
theorem MomentGate.exists_unlabelled {g : MomentGate R} {arity : Nat}
    (h : "" ∈ g.wireSymbols arity) : ∃ custom, g.custom? = some custom ∧ "" ∈ custom.labels := by
  cases g with
  | matrix custom => exact ⟨custom, rfl, h⟩
  | controlledMatrix custom controls =>
    refine ⟨custom, rfl, (List.mem_append.mp h).resolve_left fun hcontrol => ?_⟩
    exact absurd (List.eq_of_mem_replicate hcontrol) (by decide)
  | measure key =>
    cases arity with
    | zero => cases h
    | succ arity => simp [wireSymbols, List.mem_replicate, String.ext_iff] at h
  | _ => simp [wireSymbols, String.ext_iff] at h

namespace DiagramColumn

variable {m : Moment R} {n wire : Nat} {symbol : String}

theorem mem_symbols {entry : Nat × String} :
    entry ∈ m.flatMap PlacedGate.symbols ↔ ∃ p ∈ m, entry ∈ p.symbols := List.mem_flatMap

/-- What a wire shows in a moment: the symbol last written there, else a crossing. -/
def cell (m : Moment R) (wire : Nat) : Option String :=
  match (m.flatMap PlacedGate.symbols).reverse.find? (·.1 = wire) with
  | some (_, symbol) => some symbol
  | none => if m.any (·.crosses wire) then some "┼" else none

def lastSymbol (symbols : List (Nat × String)) (before : Nat → Option String) (wire : Nat) :
    Option String :=
  match symbols.reverse.find? (·.1 = wire) with
  | some (_, symbol) => some symbol
  | none => before wire

omit [AngleLabel R] in
theorem lastSymbol_append (symbols : List (Nat × String)) (before : Nat → Option String)
    (s : Nat × String) (wire : Nat) : lastSymbol (symbols ++ [s]) before wire =
      if s.1 = wire then some s.2 else lastSymbol symbols before wire := by
  rw [lastSymbol, List.reverse_append, List.reverse_singleton, List.singleton_append,
    List.find?_cons]
  by_cases h : s.1 = wire <;> simp [h, lastSymbol]

omit [AngleLabel R] in
theorem foldl_set (symbols : List (Nat × String)) (n : Nat) (before : Nat → Option String) :
    symbols.foldl (fun cells (wire, symbol) => cells.set wire (some symbol))
        ((List.range n).map before) = (List.range n).map (lastSymbol symbols before) := by
  induction symbols using List.reverseRecOn with
  | nil => rfl
  | append_singleton symbols s ih =>
    rw [List.foldl_append, ih, List.foldl_cons, List.foldl_nil]
    refine List.ext_getElem (by simp) fun wire _ _ => ?_
    simp [List.getElem_set, lastSymbol_append]

theorem cell_append (m : Moment R) (p : PlacedGate R) (wire : Nat) :
    cell (m ++ [p]) wire =
      if (lastSymbol p.symbols (cell m) wire).isNone && p.crosses wire then some "┼"
      else lastSymbol p.symbols (cell m) wire := by
  rw [cell, lastSymbol, List.flatMap_append, List.flatMap_singleton, List.reverse_append,
    List.find?_append]
  cases p.symbols.reverse.find? (·.1 = wire) with
  | some s => simp
  | none =>
    rw [cell]
    cases (m.flatMap PlacedGate.symbols).reverse.find? (·.1 = wire) with
    | some s => simp
    | none => cases hcrosses : m.any (·.crosses wire) <;> simp [hcrosses]

/-- **A column, wire by wire.** -/
theorem ofMoment_eq (n : Nat) (m : Moment R) :
    (ofMoment n m).cells = (List.range n).map (cell m) ∧
      (ofMoment n m).links = (List.range (n - 1)).map fun wire => m.any (·.links wire) := by
  change m.foldl write (List.replicate n none) = _ ∧
    m.foldl link (List.replicate (n - 1) false) = _
  induction m using List.reverseRecOn with
  | nil =>
    constructor <;>
    · refine List.ext_getElem (by simp) fun wire _ _ => ?_
      simp [cell]
  | append_singleton m p ih =>
    rw [List.foldl_append, List.foldl_append, ih.1, ih.2]
    simp only [List.foldl_cons, List.foldl_nil, write, link, foldl_set]
    constructor <;>
    · refine List.ext_getElem (by simp) fun wire _ _ => ?_
      simp [cell_append]

/-- A wire shows a symbol of a gate on it; if there is none, a crossing or nothing. -/
theorem cell_cases (m : Moment R) (wire : Nat) :
    (∃ symbol, (∃ p ∈ m, (wire, symbol) ∈ p.symbols) ∧ cell m wire = some symbol) ∨
    (∀ p ∈ m, ∀ symbol, (wire, symbol) ∉ p.symbols) ∧
      cell m wire = if m.any (·.crosses wire) then some "┼" else none := by
  unfold cell
  split
  · next wire' symbol hfind =>
    have hwire := List.find?_some hfind
    obtain rfl : wire' = wire := of_decide_eq_true hwire
    exact .inl ⟨symbol, mem_symbols.mp (List.mem_reverse.mp (List.mem_of_find?_eq_some hfind)), rfl⟩
  · next hfind =>
    refine .inr ⟨fun p hp symbol hsymbol => ?_, rfl⟩
    have hother := List.find?_eq_none.mp hfind (wire, symbol)
      (List.mem_reverse.mpr (mem_symbols.mpr ⟨p, hp, hsymbol⟩))
    exact hother (decide_eq_true rfl)

/-! ## 2. The width of a column -/

theorem width_ofMoment (n : Nat) (m : Moment R) : (ofMoment n m).width =
    (((ofMoment n m).cells.filterMap id).map String.length).max?.getD 1 := rfl

theorem mem_shown : symbol ∈ (ofMoment n m).cells.filterMap id ↔
    ∃ wire < n, cell m wire = some symbol := by
  simp [ofMoment_eq]

/-- No symbol is wider than its column. -/
theorem length_le_width (hwire : wire < n) (h : cell m wire = some symbol) :
    symbol.length ≤ (ofMoment n m).width :=
  List.le_max?_getD_of_mem (List.mem_map_of_mem (mem_shown.mpr ⟨wire, hwire, h⟩))

/-- A moment shows something on its wires, and all that it shows is empty. -/
structure Blank (numQubits : Nat) (m : Moment R) : Prop where
  shows : ∃ wire < numQubits, ∃ symbol, cell m wire = some symbol
  empty : ∀ wire < numQubits, ∀ symbol, cell m wire = some symbol → symbol = ""

theorem width_eq_zero_iff : (ofMoment n m).width = 0 ↔ Blank n m := by
  constructor
  · intro hwidth
    refine ⟨?_, fun wire hwire symbol hcell => ?_⟩
    · by_contra hnone
      have hshown : (ofMoment n m).cells.filterMap id = [] := by
        refine List.eq_nil_iff_forall_not_mem.mpr fun symbol hmem => hnone ?_
        obtain ⟨wire, hwire, hcell⟩ := mem_shown.mp hmem
        exact ⟨wire, hwire, symbol, hcell⟩
      rw [width_ofMoment, hshown] at hwidth
      cases hwidth
    · have hlength := length_le_width hwire hcell
      rw [hwidth, Nat.le_zero] at hlength
      exact String.length_eq_zero_iff.mp hlength
  · rintro ⟨⟨wire, hwire, symbol, hcell⟩, hempty⟩
    have hmem : symbol.length ∈ ((ofMoment n m).cells.filterMap id).map String.length :=
      List.mem_map_of_mem (mem_shown.mpr ⟨wire, hwire, hcell⟩)
    rw [width_ofMoment]
    cases hmax : (((ofMoment n m).cells.filterMap id).map String.length).max? with
    | none =>
      rw [List.max?_eq_none_iff.mp hmax] at hmem
      cases hmem
    | some width =>
      obtain ⟨widest, hwidest, rfl⟩ := List.mem_map.mp (List.max?_mem hmax)
      obtain ⟨wire', hwire', hcell'⟩ := mem_shown.mp hwidest
      rw [hempty wire' hwire' widest hcell']
      rfl

/-- A blank moment holds a gate with an empty symbol. -/
theorem Blank.exists_symbol (h : Blank n m) : ∃ p ∈ m, "" ∈ p.gate.wireSymbols p.qubits.length := by
  obtain ⟨wire, hwire, symbol, hcell⟩ := h.shows
  obtain rfl := h.empty wire hwire symbol hcell
  rcases cell_cases m wire with ⟨symbol, ⟨p, hp, hsymbol⟩, hcell'⟩ | ⟨-, hcell'⟩
  · cases hcell.symm.trans hcell'
    exact ⟨p, hp, (List.of_mem_zip hsymbol).2⟩
  · rw [hcell] at hcell'
    split at hcell'
    · exact absurd (Option.some.inj hcell') (by decide)
    · cases hcell'

end DiagramColumn

namespace MomentCircuit

/-! ## 3. The lines of a diagram -/

def columns (c : MomentCircuit R) : List DiagramColumn := c.moments.map (.ofMoment c.numQubits)

/-- The line below a wire, if each column has a place for its link. -/
def linkLine (margin : Nat) (columns : List DiagramColumn) (wire : Nat) : String :=
  let part (c : DiagramColumn) : String :=
    "   " ++ (if (c.links[wire]?).getD false then "│" else " ") ++ repeated (c.width - 1) ' '
  let line := repeated margin ' ' ++ String.join (columns.map part)
  String.ofList (line.toList.reverse.dropWhile (· = ' ')).reverse

theorem gapLine_eq (margin : Nat) (columns : List DiagramColumn) (wire : Nat) :
    gapLine margin columns wire = if ∃ c ∈ columns, c.width = 0 then .error .widthBelowZero
      else .ok (linkLine margin columns wire) := by
  unfold gapLine
  rw [mapM_refusing]
  split <;> rfl

/-- The lines for a wire: its own and, unless it is the last, that of the links below it. -/
def rows (c : MomentCircuit R) (wire : Nat) : List String :=
  wireLine (wireLabel c.numQubits wire) c.columns wire ::
    if wire + 1 < c.numQubits then
      [linkLine (wireLabel c.numQubits 0).length c.columns wire]
    else []

def lines (c : MomentCircuit R) : List String := (List.range c.numQubits).flatMap c.rows

def drawRows (c : MomentCircuit R) (wire : Nat) : Except MachineFault (List String) := do
  let line := wireLine (wireLabel c.numQubits wire) c.columns wire
  if wire + 1 < c.numQubits then
    return [line, ← gapLine (wireLabel c.numQubits 0).length c.columns wire]
  else return [line]

theorem drawRows_eq (c : MomentCircuit R) (wire : Nat) :
    c.drawRows wire = if wire + 1 < c.numQubits ∧ ∃ column ∈ c.columns, column.width = 0 then
      .error .widthBelowZero else .ok (c.rows wire) := by
  unfold drawRows rows
  rw [gapLine_eq]
  by_cases hlast : wire + 1 < c.numQubits
  · by_cases hflat : ∃ column ∈ c.columns, column.width = 0
    · simp only [if_pos hlast, if_pos hflat, if_pos (And.intro hlast hflat)]
      rfl
    · simp only [if_pos hlast, if_neg hflat, if_neg (mt And.right hflat)]
      rfl
  · simp only [if_neg hlast, if_neg (mt And.left hlast)]
    rfl

/-- **There is a diagram unless there are links to draw and a column has no width.** -/
theorem diagram_eq (c : MomentCircuit R) :
    c.diagram = if 1 < c.numQubits ∧ ∃ column ∈ c.columns, column.width = 0 then
      .error .widthBelowZero else .ok ("\n".intercalate c.lines) := by
  have hrefused : (∃ wire ∈ List.range c.numQubits,
      wire + 1 < c.numQubits ∧ ∃ column ∈ c.columns, column.width = 0) ↔
        1 < c.numQubits ∧ ∃ column ∈ c.columns, column.width = 0 := by
    constructor
    · rintro ⟨wire, -, hwire, hcolumn⟩
      exact ⟨Nat.lt_of_le_of_lt (Nat.le_add_left 1 wire) hwire, hcolumn⟩
    · rintro ⟨hn, hcolumn⟩
      exact ⟨0, List.mem_range.mpr (Nat.lt_of_succ_lt hn), hn, hcolumn⟩
  change (do
    let lines ← (List.range c.numQubits).mapM c.drawRows
    return "\n".intercalate lines.flatten) = _
  rw [funext c.drawRows_eq, mapM_refusing]
  simp only [hrefused]
  split <;> rfl

/-- **Which circuits can be drawn.**  No symbol is ever wider than its column.  A circuit made by
    appending gates, whatever they are and wherever they lie, can be drawn if it has at most one
    wire or none of its moments is blank, and otherwise a width falls below zero.  No moment is
    blank if every label of every custom gate has something to show. -/
theorem drawn_iff (width : Nat) (calls : List (PlacedGate R)) :
    let c : MomentCircuit R := (empty width).appendAll calls
    (∀ m ∈ c.moments, ∀ wire < width, ∀ symbol, DiagramColumn.cell m wire = some symbol →
      symbol.length ≤ (DiagramColumn.ofMoment width m).width) ∧
    ((∃ text, c.diagram = .ok text) ↔ width ≤ 1 ∨ ∀ m ∈ c.moments, ¬ DiagramColumn.Blank width m) ∧
    ((¬ ∃ text, c.diagram = .ok text) → c.diagram = .error .widthBelowZero) ∧
    ((∀ p ∈ calls, ∀ custom, p.gate.custom? = some custom → "" ∉ custom.labels) →
      ∃ text, c.diagram = .ok text) := by
  intro c
  have hwidth : c.numQubits = width := numQubits_appendAll calls _
  have hblank : (1 < c.numQubits ∧ ∃ column ∈ c.columns, column.width = 0) ↔
      ¬ (width ≤ 1 ∨ ∀ m ∈ c.moments, ¬ DiagramColumn.Blank width m) := by
    simp [columns, DiagramColumn.width_eq_zero_iff, hwidth]
  have hdrawn : (∃ text, c.diagram = .ok text) ↔
      width ≤ 1 ∨ ∀ m ∈ c.moments, ¬ DiagramColumn.Blank width m := by
    rw [diagram_eq, ← not_iff_not, ← hblank]
    split
    · next h => simp [h]
    · next h => simp [h]
  refine ⟨fun m _ wire hwire symbol hcell => DiagramColumn.length_le_width hwire hcell, hdrawn,
    fun hnone => ?_, fun hlabels => hdrawn.mpr (.inr fun m hm hblank => ?_)⟩
  · rw [diagram_eq]
    exact if_pos (hblank.mpr (mt hdrawn.mpr hnone))
  · obtain ⟨p, hp, hsymbol⟩ := hblank.exists_symbol
    obtain ⟨custom, hcustom, hlabel⟩ := MomentGate.exists_unlabelled hsymbol
    exact hlabels p (mem_of_mem_moment hm hp) custom hcustom hlabel

/-! ### A label with nothing to show -/

noncomputable def labelledFlip (label : String) : CustomGate ℝ :=
  ⟨"X", 1, GateMatrix.Standard.x, [label]⟩

theorem new_labelledFlip (label : String) :
    CustomGate.new "X" 1 GateMatrix.Standard.x [label] = .ok (labelledFlip label) := by
  have hpasses := GateMatrix.orthonormal_x.excessDeviation?
  exact CustomGate.new_eq_ok_iff.mpr ⟨rfl, rfl, hpasses, rfl⟩

theorem drawn_iff_labelled :
    letI : AngleLabel ℝ := ⟨fun _ => ""⟩
    CustomGate.new "X" 1 GateMatrix.Standard.x ["F"] = .ok (labelledFlip "F") ∧
      "" ∉ (labelledFlip "F").labels ∧
      ∃ text, ((empty 2).appendAll [⟨.matrix (labelledFlip "F"), [0]⟩]).diagram = .ok text := by
  let _ : AngleLabel ℝ := ⟨fun _ => ""⟩
  have hlabel : "" ∉ (labelledFlip "F").labels := by decide
  obtain ⟨-, -, -, hdrawn⟩ := drawn_iff 2 [⟨.matrix (labelledFlip "F"), [0]⟩]
  refine ⟨new_labelledFlip "F", hlabel, hdrawn fun p hp custom hcustom => ?_⟩
  obtain rfl := List.mem_singleton.mp hp
  cases hcustom
  exact hlabel

/-- **A custom gate without a visible label cannot be drawn** where there are links to draw; on
    a single wire it can. -/
theorem unlabelled_undrawn :
    letI : AngleLabel ℝ := ⟨fun _ => ""⟩
    CustomGate.new "X" 1 GateMatrix.Standard.x [""] = .ok (labelledFlip "") ∧
      ((empty 1).appendAll [⟨.matrix (labelledFlip ""), [0]⟩]).diagram = .ok "0: ──────" ∧
      ((empty 2).appendAll [⟨.matrix (labelledFlip ""), [0]⟩]).diagram = .error .widthBelowZero :=
  ⟨new_labelledFlip "", rfl, rfl⟩

end MomentCircuit

end CircuitBroker
