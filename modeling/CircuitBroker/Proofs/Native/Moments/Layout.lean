/-
  CircuitBroker/Proofs/Native/Moments/Layout.lean
  ===============================================
  **What a diagram shows, and where.**

  A diagram is read back from its text.  Its lines are what stands between the line breaks,
  and every other one is that of a wire; in this line a column takes as many characters as it
  is wide, from the place on where it starts (`columnStart`).  What is read there is the
  symbol of the gate on the wire, which no other gate of the moment touches
  (`cell_of_symbol`), or else a crossing if a gate of the moment spans the wire
  (`cell_of_untouched`).
-/
import CircuitBroker.Proofs.Native.Moments.Diagram
import CircuitBroker.Proofs.Native.Moments.Packing

namespace CircuitBroker

variable {R : Type}

/-! ## 1. What a moment shows -/

/-- A wire lies between two qubits of a gate. -/
def PlacedGate.Spans (p : PlacedGate R) (wire : Nat) : Prop :=
  ∃ low ∈ p.qubits, ∃ high ∈ p.qubits, low < wire ∧ wire < high

theorem PlacedGate.crosses_iff {p : PlacedGate R} {wire : Nat} :
    p.crosses wire = true ↔ p.Spans wire := by
  unfold crosses span? Spans
  cases hmin : p.qubits.min? with
  | none => simp [List.min?_eq_none_iff.mp hmin]
  | some low =>
    cases hmax : p.qubits.max? with
    | none => simp [List.max?_eq_none_iff.mp hmax]
    | some high =>
      obtain ⟨hlow, hleast⟩ := List.min?_eq_some_iff.mp hmin
      obtain ⟨hhigh, hgreatest⟩ := List.max?_eq_some_iff.mp hmax
      simp only [Option.bind_eq_bind, Option.bind_some, Option.pure_def, Bool.and_eq_true,
        decide_eq_true_eq]
      constructor
      · rintro ⟨hlt, hgt⟩
        exact ⟨low, hlow, high, hhigh, hlt, hgt⟩
      · rintro ⟨low', hlow', high', hhigh', hlt, hgt⟩
        exact ⟨(hleast low' hlow').trans_lt hlt, hgt.trans_le (hgreatest high' hhigh')⟩

theorem Moment.any_crosses_iff {m : Moment R} {wire : Nat} :
    m.any (·.crosses wire) = true ↔ ∃ p ∈ m, p.Spans wire := by
  simp only [List.any_eq_true, PlacedGate.crosses_iff]

variable [AngleLabel R]

theorem PlacedGate.mem_symbols {p : PlacedGate R} {i wire : Nat} {symbol : String}
    (hqubit : p.qubits[i]? = some wire)
    (hsymbol : (p.gate.wireSymbols p.qubits.length)[i]? = some symbol) :
    (wire, symbol) ∈ p.symbols := by
  refine List.mem_of_getElem? (i := i) ?_
  rw [symbols, List.getElem?_zip_eq_some]
  exact ⟨hqubit, hsymbol⟩

/-- A gate on different wires that shows one visible symbol on each of them. -/
structure PlacedGate.Drawable (numQubits : Nat) (p : PlacedGate R) : Prop where
  nodup : p.qubits.Nodup
  inside : ∀ q ∈ p.qubits, q < numQubits
  matched : (p.gate.wireSymbols p.qubits.length).length = p.qubits.length
  visible : ∀ s ∈ p.gate.wireSymbols p.qubits.length, s ≠ "" ∧ '\n' ∉ s.toList

namespace DiagramColumn

variable {m : Moment R} {p : PlacedGate R} {n wire : Nat} {symbol : String}

theorem eq_of_mem_symbols (hp : p.Drawable n) {symbol' : String} (h : (wire, symbol) ∈ p.symbols)
    (h' : (wire, symbol') ∈ p.symbols) : symbol = symbol' := by
  have hwires : p.symbols.map Prod.fst = p.qubits := List.map_fst_zip hp.matched.ge
  have hnodup : (p.symbols.map Prod.fst).Nodup := hwires.symm ▸ hp.nodup
  exact congrArg Prod.snd (List.inj_on_of_nodup_map hnodup h h' rfl)

/-- **The wire of a gate shows its symbol**, since no other gate of the moment is on it. -/
theorem cell_of_symbol (hapart : m.Pairwise PlacedGate.Apart) (hp : p ∈ m) (hdrawable : p.Drawable n)
    (h : (wire, symbol) ∈ p.symbols) : cell m wire = some symbol := by
  rcases cell_cases m wire with ⟨symbol', ⟨q, hq, h'⟩, hcell⟩ | ⟨hnone, -⟩
  · have hsame : p = q := by
      by_contra hne
      have : Std.Symm (PlacedGate.Apart (R := R)) := ⟨fun _ _ hdisjoint => hdisjoint.symm⟩
      exact hapart.forall hp hq hne (List.of_mem_zip h).1 (List.of_mem_zip h').1
    rw [hcell, eq_of_mem_symbols hdrawable h (hsame ▸ h')]
  · exact absurd h (hnone p hp symbol)

/-- **A wire that no gate touches shows a crossing if one spans it.** -/
theorem cell_of_untouched (h : ∀ p ∈ m, wire ∉ p.qubits) :
    cell m wire = if m.any (·.crosses wire) then some "┼" else none := by
  rcases cell_cases m wire with ⟨symbol, ⟨p, hp, hsymbol⟩, -⟩ | ⟨-, hcell⟩
  · exact absurd (List.of_mem_zip hsymbol).1 (h p hp)
  · exact hcell

end DiagramColumn

namespace MomentCircuit

variable {c : MomentCircuit R} {m : Moment R} {wire k : Nat}

/-! ## 2. The line of a wire -/

def padded (width : Nat) (symbol : String) : List Char :=
  symbol.toList ++ List.replicate (width - symbol.length) '─'

theorem length_padded {width : Nat} {symbol : String} (h : symbol.length ≤ width) :
    (padded width symbol).length = width := by
  rw [padded, List.length_append, List.length_replicate, String.length_toList,
    Nat.add_sub_cancel' h]

def columnText (numQubits wire : Nat) (m : Moment R) : List Char :=
  "───".toList ++
    padded (DiagramColumn.ofMoment numQubits m).width ((DiagramColumn.cell m wire).getD "")

theorem length_shown (hwire : wire < c.numQubits) (m : Moment R) :
    (padded (DiagramColumn.ofMoment c.numQubits m).width
      ((DiagramColumn.cell m wire).getD "")).length =
        (DiagramColumn.ofMoment c.numQubits m).width := by
  refine length_padded ?_
  cases hcell : DiagramColumn.cell m wire with
  | none => exact Nat.zero_le _
  | some symbol => exact DiagramColumn.length_le_width hwire hcell

theorem toList_wireLine (hwire : wire < c.numQubits) (label : String) :
    (wireLine label c.columns wire).toList =
      label.toList ++ c.moments.flatMap (columnText c.numQubits wire) ++ "───".toList := by
  have hcell : ∀ m : Moment R, (((DiagramColumn.ofMoment c.numQubits m).cells[wire]?).bind id) =
      DiagramColumn.cell m wire := by
    intro m
    simp [DiagramColumn.ofMoment_eq, hwire]
  simp only [wireLine, columns, repeated, String.toList_append, String.toList_join, List.map_map,
    List.flatMap_map, Function.comp_def, hcell, String.toList_ofList, List.append_assoc]
  rfl

def columnStart (c : MomentCircuit R) (k : Nat) : Nat :=
  (wireLabel c.numQubits 0).length +
    ((c.moments.take k).map fun m => 3 + (DiagramColumn.ofMoment c.numQubits m).width).sum + 3

theorem length_toString_le {a b : Nat} (h : a ≤ b) : (toString a).length ≤ (toString b).length := by
  have hpos : 0 < (toString b).length := Nat.length_repr_pos
  refine (Nat.length_repr_le_iff hpos).mpr (h.trans_lt ?_)
  exact (Nat.length_repr_le_iff hpos).mp (Nat.le_refl _)

theorem length_wireLabel {n : Nat} (hwire : wire < n) :
    (wireLabel n wire).length = (wireLabel n 0).length := by
  have hlabel : ∀ i < n, (wireLabel n i).length = (toString (n - 1)).length + 2 := by
    intro i hi
    have hle := length_toString_le (Nat.le_sub_one_of_lt hi)
    have hmark : (": " : String).length = 2 := rfl
    simp only [wireLabel, repeated, String.length_append, String.length_ofList,
      List.length_replicate, hmark]
    omega
  rw [hlabel wire hwire, hlabel 0 (Nat.zero_lt_of_lt hwire)]

theorem length_flatMap_columnText (hwire : wire < c.numQubits) (moments : List (Moment R)) :
    (moments.flatMap (columnText c.numQubits wire)).length =
      (moments.map fun m => 3 + (DiagramColumn.ofMoment c.numQubits m).width).sum := by
  rw [List.length_flatMap]
  refine congrArg List.sum (List.map_congr_left fun m _ => ?_)
  rw [columnText, List.length_append, length_shown hwire]
  rfl

/-- **The lines of all wires are equally long.** -/
theorem length_wireLine (hwire : wire < c.numQubits) :
    (wireLine (wireLabel c.numQubits wire) c.columns wire).toList.length =
      c.columnStart c.moments.length := by
  rw [toList_wireLine hwire, List.length_append, List.length_append, String.length_toList,
    length_wireLabel hwire, length_flatMap_columnText hwire, columnStart, List.take_length]
  rfl

/-- **What a column shows on a wire is read where the column starts.** -/
theorem take_drop_wireLine (hwire : wire < c.numQubits) (hm : c.moments[k]? = some m) :
    ((wireLine (wireLabel c.numQubits wire) c.columns wire).toList.drop (c.columnStart k)).take
        (DiagramColumn.ofMoment c.numQubits m).width =
      padded (DiagramColumn.ofMoment c.numQubits m).width ((DiagramColumn.cell m wire).getD "") := by
  obtain ⟨hk, hget⟩ := List.getElem?_eq_some_iff.mp hm
  have hmoments : c.moments = c.moments.take k ++ m :: c.moments.drop (k + 1) := by
    rw [← hget, List.getElem_cons_drop, List.take_append_drop]
  -- the line splits into what stands before this place, the column, and what comes behind it
  let before := (wireLabel c.numQubits wire).toList ++
    (c.moments.take k).flatMap (columnText c.numQubits wire) ++ "───".toList
  let behind := (c.moments.drop (k + 1)).flatMap (columnText c.numQubits wire) ++ "───".toList
  have hline : (wireLine (wireLabel c.numQubits wire) c.columns wire).toList = before ++
      (padded (DiagramColumn.ofMoment c.numQubits m).width
        ((DiagramColumn.cell m wire).getD "") ++ behind) := by
    rw [toList_wireLine hwire]
    conv_lhs => rw [hmoments]
    rw [List.flatMap_append, List.flatMap_cons, columnText]
    simp only [before, behind, List.append_assoc]
  have hbefore : before.length = c.columnStart k := by
    rw [List.length_append, List.length_append, String.length_toList, length_wireLabel hwire,
      length_flatMap_columnText hwire, columnStart]
    rfl
  rw [hline, List.drop_left' hbefore, List.take_left' (length_shown hwire m)]

/-! ## 3. The lines between the breaks -/

section Pairs

variable {α : Type} (a b : Nat → α)

theorem length_flatMap_pair (count : Nat) :
    ((List.range count).flatMap fun i => [a i, b i]).length = 2 * count := by
  simp [List.length_flatMap, Nat.mul_comm]

/-- Of pairs one after the other, the first entry of each. -/
theorem getElem?_flatMap_pair {count i : Nat} (h : i < count) :
    ((List.range count).flatMap fun i => [a i, b i])[2 * i]? = some (a i) := by
  induction count with
  | zero => exact absurd h (Nat.not_lt_zero i)
  | succ count ih =>
    have hlength := length_flatMap_pair a b count
    rw [List.range_succ, List.flatMap_append, List.flatMap_singleton]
    rcases Nat.lt_succ_iff_lt_or_eq.mp h with hlt | rfl
    · rw [List.getElem?_append_left (by omega)]
      exact ih hlt
    · rw [List.getElem?_append_right hlength.le, hlength, Nat.sub_self]
      rfl

end Pairs

theorem lines_eq {count : Nat} (hn : c.numQubits = count + 1) :
    c.lines = ((List.range count).flatMap fun wire =>
        [wireLine (wireLabel c.numQubits wire) c.columns wire,
          linkLine (wireLabel c.numQubits 0).length c.columns wire]) ++
      [wireLine (wireLabel c.numQubits count) c.columns count] := by
  have hinit : (List.range count).flatMap c.rows = (List.range count).flatMap fun wire =>
      [wireLine (wireLabel c.numQubits wire) c.columns wire,
        linkLine (wireLabel c.numQubits 0).length c.columns wire] := by
    refine List.flatMap_congr fun wire hwire => ?_
    rw [rows, if_pos (hn ▸ Nat.succ_lt_succ (List.mem_range.mp hwire))]
  have hlast : c.rows count = [wireLine (wireLabel c.numQubits count) c.columns count] := by
    rw [rows, if_neg (hn ▸ Nat.lt_irrefl _)]
  rw [lines, hn, List.range_succ, List.flatMap_append, List.flatMap_singleton, hinit, hlast, ← hn]

theorem length_lines (hn : 1 ≤ c.numQubits) : c.lines.length = 2 * c.numQubits - 1 := by
  obtain ⟨count, hcount⟩ := Nat.exists_eq_add_of_le' hn
  rw [lines_eq hcount, List.length_append, length_flatMap_pair, hcount]
  rfl

theorem getElem?_lines (hwire : wire < c.numQubits) :
    c.lines[2 * wire]? = some (wireLine (wireLabel c.numQubits wire) c.columns wire) := by
  obtain ⟨count, hcount⟩ := Nat.exists_eq_add_of_le' (Nat.zero_lt_of_lt hwire)
  rw [lines_eq hcount]
  rcases Nat.lt_succ_iff_lt_or_eq.mp (hcount ▸ hwire) with hlt | rfl
  · rw [List.getElem?_append_left (by rw [length_flatMap_pair]; omega)]
    exact getElem?_flatMap_pair _ _ hlt
  · rw [List.getElem?_append_right (length_flatMap_pair _ _ wire).le, length_flatMap_pair,
      Nat.sub_self]
    rfl

theorem break_not_mem_wireLabel (n wire : Nat) : '\n' ∉ (wireLabel n wire).toList := by
  have hdigits : '\n' ∉ Nat.toDigits 10 wire := by
    intro hmem
    have hdigit := Nat.isDigit_of_mem_toDigits (by decide) (by decide) hmem
    exact absurd hdigit (by decide)
  simp [wireLabel, repeated, hdigits, List.mem_replicate]

theorem break_not_mem_linkLine (margin : Nat) (columns : List DiagramColumn) (wire : Nat) :
    '\n' ∉ (linkLine margin columns wire).toList := by
  unfold linkLine
  dsimp only
  rw [String.toList_ofList, List.mem_reverse]
  intro hmem
  have hline := List.mem_reverse.mp (List.dropWhile_subset _ hmem)
  have hlink : ∀ linked : Bool, '\n' ∉ (if linked then "│" else " ").toList := by decide
  simp [repeated, hlink, List.mem_replicate] at hline

theorem break_not_mem_lines (h : ∀ m ∈ c.moments, ∀ p ∈ m, p.Drawable c.numQubits) :
    ∀ line ∈ c.lines, '\n' ∉ line.toList := by
  have hshown : ∀ m ∈ c.moments, ∀ wire, '\n' ∉ ((DiagramColumn.cell m wire).getD "").toList := by
    intro m hm wire
    rcases DiagramColumn.cell_cases m wire with ⟨symbol, ⟨p, hp, hsymbol⟩, hcell⟩ | ⟨-, hcell⟩
    · rw [hcell]
      exact ((h m hm p hp).visible symbol (List.of_mem_zip hsymbol).2).2
    · rw [hcell]
      split <;> decide
  intro line hline
  obtain ⟨wire, hwire, hrow⟩ := List.mem_flatMap.mp hline
  rcases List.mem_cons.mp hrow with rfl | hlink
  · rw [toList_wireLine (List.mem_range.mp hwire)]
    simpa [columnText, padded, break_not_mem_wireLabel, List.mem_replicate] using
      fun m hm => hshown m hm wire
  · split at hlink
    · rw [List.mem_singleton.mp hlink]
      exact break_not_mem_linkLine _ _ _
    · cases hlink

theorem splitOn_intercalate_lines (hn : 1 ≤ c.numQubits)
    (h : ∀ m ∈ c.moments, ∀ p ∈ m, p.Drawable c.numQubits) :
    ("\n".intercalate c.lines).toList.splitOn '\n' = c.lines.map String.toList := by
  have hne : c.lines.map String.toList ≠ [] := by
    rw [← List.length_pos_iff, List.length_map, length_lines hn]
    omega
  rw [String.toList_intercalate]
  exact List.splitOn_intercalate '\n'
    (List.forall_mem_map.mpr (break_not_mem_lines h)) hne

/-! ## 4. The layout -/

def columnWidth (c : MomentCircuit R) (k : Nat) : Nat := ((c.columns[k]?).map (·.width)).getD 0

def readLine (text : String) (wire : Nat) : List Char :=
  (text.toList.splitOn '\n').getD (2 * wire) []

/-- What a text shows in a column on a wire. -/
def readCell (c : MomentCircuit R) (text : String) (k wire : Nat) : List Char :=
  ((readLine text wire).drop (c.columnStart k)).take (c.columnWidth k)

/-- A text shows a circuit: on each wire of a gate its own symbol, and a crossing on the wires
    that are spanned but not touched. -/
structure LaidOut (c : MomentCircuit R) (text : String) : Prop where
  lines : (text.toList.splitOn '\n').length = 2 * c.numQubits - 1
  aligned : ∀ wire < c.numQubits, (readLine text wire).length = c.columnStart c.moments.length
  own : ∀ k m, c.moments[k]? = some m → ∀ p ∈ m, ∀ (i wire : Nat) (symbol : String),
    p.qubits[i]? = some wire → (p.gate.wireSymbols p.qubits.length)[i]? = some symbol →
      c.readCell text k wire = padded (c.columnWidth k) symbol
  crossed : ∀ k m, c.moments[k]? = some m → ∀ wire < c.numQubits, (∀ p ∈ m, wire ∉ p.qubits) →
    (∃ p ∈ m, p.Spans wire) → c.readCell text k wire = padded (c.columnWidth k) "┼"
  plain : ∀ k m, c.moments[k]? = some m → ∀ wire < c.numQubits, (∀ p ∈ m, wire ∉ p.qubits) →
    (¬ ∃ p ∈ m, p.Spans wire) → c.readCell text k wire = padded (c.columnWidth k) ""

/-- A symbol is told by what it begins with. -/
theorem head?_padded {width : Nat} {symbol : String} (h : symbol ≠ "") :
    (padded width symbol).head? = symbol.toList.head? :=
  List.head?_append_of_ne_nil _ (mt String.toList_eq_nil_iff.mp h)

/-- Where no gate has a symbol that begins like a crossing, a crossing is shown exactly on the
    wires that are spanned but not touched. -/
theorem LaidOut.crossing_iff {text : String} (h : c.LaidOut text) (hm : c.moments[k]? = some m)
    (hdrawable : ∀ p ∈ m, p.Drawable c.numQubits)
    (hsymbols : ∀ p ∈ m, ∀ s ∈ p.gate.wireSymbols p.qubits.length, s.toList.head? ≠ some '┼')
    (hwire : wire < c.numQubits) : c.readCell text k wire = padded (c.columnWidth k) "┼" ↔
      (∀ p ∈ m, wire ∉ p.qubits) ∧ ∃ p ∈ m, p.Spans wire := by
  have hcrossing : ("┼" : String) ≠ "" := by decide
  constructor
  · intro hread
    have huntouched : ∀ p ∈ m, wire ∉ p.qubits := by
      intro p hp htouched
      obtain ⟨i, hi⟩ := List.mem_iff_getElem?.mp htouched
      obtain ⟨hlt, -⟩ := List.getElem?_eq_some_iff.mp hi
      rw [← (hdrawable p hp).matched] at hlt
      have hsymbol := List.getElem?_eq_getElem hlt
      have hmem := List.getElem_mem hlt
      have hown := h.own k m hm p hp i wire _ hi hsymbol
      have hhead := congrArg List.head? (hown.symm.trans hread)
      rw [head?_padded hcrossing, head?_padded ((hdrawable p hp).visible _ hmem).1] at hhead
      exact hsymbols p hp _ hmem hhead
    refine ⟨huntouched, ?_⟩
    by_contra hspan
    have hplain := h.plain k m hm wire hwire huntouched hspan
    have hwireOnly : (padded (c.columnWidth k) "").head? ≠ some '┼' := by
      simp [padded, List.head?_replicate]
    rw [hplain.symm.trans hread, head?_padded hcrossing] at hwireOnly
    exact hwireOnly rfl
  · rintro ⟨huntouched, hspan⟩
    exact h.crossed k m hm wire hwire huntouched hspan

theorem readLine_diagram (hn : 1 ≤ c.numQubits)
    (h : ∀ m ∈ c.moments, ∀ p ∈ m, p.Drawable c.numQubits) (hwire : wire < c.numQubits) :
    readLine ("\n".intercalate c.lines) wire =
      (wireLine (wireLabel c.numQubits wire) c.columns wire).toList := by
  rw [readLine, splitOn_intercalate_lines hn h, List.getD_eq_getElem?_getD, List.getElem?_map,
    getElem?_lines hwire]
  rfl

theorem readCell_diagram (hn : 1 ≤ c.numQubits)
    (h : ∀ m ∈ c.moments, ∀ p ∈ m, p.Drawable c.numQubits) (hwire : wire < c.numQubits)
    (hm : c.moments[k]? = some m) : c.readCell ("\n".intercalate c.lines) k wire =
      padded (c.columnWidth k) ((DiagramColumn.cell m wire).getD "") := by
  have hwidth : c.columnWidth k = (DiagramColumn.ofMoment c.numQubits m).width := by
    rw [columnWidth, columns, List.getElem?_map, hm]
    rfl
  rw [readCell, readLine_diagram hn h hwire, hwidth]
  exact take_drop_wireLine hwire hm

theorem diagram_of_drawable (h : ∀ m ∈ c.moments, ∀ p ∈ m, p.Drawable c.numQubits) :
    c.diagram = .ok ("\n".intercalate c.lines) := by
  rw [diagram_eq]
  refine if_neg ?_
  rintro ⟨-, column, hcolumn, hflat⟩
  obtain ⟨m, hm, rfl⟩ := List.mem_map.mp hcolumn
  obtain ⟨p, hp, hempty⟩ := (DiagramColumn.width_eq_zero_iff.mp hflat).exists_symbol
  exact ((h m hm p hp).visible "" hempty).1 rfl

theorem laidOut_lines (hn : 1 ≤ c.numQubits)
    (hapart : ∀ m ∈ c.moments, m.Pairwise PlacedGate.Apart)
    (h : ∀ m ∈ c.moments, ∀ p ∈ m, p.Drawable c.numQubits) :
    c.LaidOut ("\n".intercalate c.lines) := by
  have hread : ∀ {k m wire}, c.moments[k]? = some m → wire < c.numQubits →
      c.readCell ("\n".intercalate c.lines) k wire =
        padded (c.columnWidth k) ((DiagramColumn.cell m wire).getD "") :=
    fun hm hwire => readCell_diagram hn h hwire hm
  refine ⟨?_, fun wire hwire => ?_, fun k m hm p hp i wire symbol hqubit hsymbol => ?_,
    fun k m hm wire hwire huntouched hspan => ?_, fun k m hm wire hwire huntouched hspan => ?_⟩
  · rw [splitOn_intercalate_lines hn h, List.length_map, length_lines hn]
  · rw [readLine_diagram hn h hwire, length_wireLine hwire]
  · have hmem := List.mem_of_getElem? hm
    have hdrawable := h m hmem p hp
    have hwire : wire < c.numQubits := hdrawable.inside wire (List.mem_of_getElem? hqubit)
    rw [hread hm hwire, DiagramColumn.cell_of_symbol (hapart m hmem) hp hdrawable
      (PlacedGate.mem_symbols hqubit hsymbol)]
    rfl
  · rw [hread hm hwire, DiagramColumn.cell_of_untouched huntouched,
      if_pos (Moment.any_crosses_iff.mpr hspan)]
    rfl
  · rw [hread hm hwire, DiagramColumn.cell_of_untouched huntouched,
      if_neg (mt Moment.any_crosses_iff.mp hspan)]
    rfl

/-- **Every circuit of drawable gates is drawn, and laid out like this**: there are 2n-1 lines,
    those of the wires equally long; in each column the wires of a gate show the symbols of this
    gate; and a crossing stands exactly on the wires that no gate of the moment touches and that
    lie between the lowest and the highest qubit of one. -/
theorem diagram_laidOut {n : Nat} (hn : 1 ≤ n) {calls : List (PlacedGate R)}
    (hcalls : ∀ p ∈ calls, p.Drawable n) :
    let c : MomentCircuit R := (empty n).appendAll calls
    ∃ text, c.diagram = .ok text ∧ c.LaidOut text ∧ ∀ (k : Nat) (m : Moment R),
      c.moments[k]? = some m →
      (∀ p ∈ m, ∀ s ∈ p.gate.wireSymbols p.qubits.length, s.toList.head? ≠ some '┼') →
      ∀ wire < n, (c.readCell text k wire = padded (c.columnWidth k) "┼" ↔
        (∀ p ∈ m, wire ∉ p.qubits) ∧ ∃ p ∈ m, p.Spans wire) := by
  intro c
  have hwidth : c.numQubits = n := numQubits_appendAll calls _
  have hdrawable : ∀ m ∈ c.moments, ∀ p ∈ m, p.Drawable c.numQubits := by
    intro m hm p hp
    rw [hwidth]
    exact hcalls p (mem_of_mem_moment hm hp)
  have hapart : ∀ m ∈ c.moments, m.Pairwise PlacedGate.Apart := by
    obtain ⟨slot, hpacked⟩ := exists_packed n calls.get
    rw [List.ofFn_get] at hpacked
    exact hpacked.pairwise_apart
  have hlaidOut := laidOut_lines (hwidth ▸ hn) hapart hdrawable
  refine ⟨_, diagram_of_drawable hdrawable, hlaidOut, fun k m hm hsymbols wire hwire => ?_⟩
  exact hlaidOut.crossing_iff hm (hdrawable m (List.mem_of_getElem? hm)) hsymbols (hwidth ▸ hwire)

/-! ### A gate under another one -/

noncomputable def nested : List (PlacedGate ℝ) :=
  [⟨.cz, [0, 2]⟩, ⟨.x, [1]⟩, ⟨.measure "m", [2, 0]⟩]

theorem diagram_laidOut_nested :
    letI : AngleLabel ℝ := ⟨fun _ => ""⟩
    let c : MomentCircuit ℝ := (empty 3).appendAll nested
    let text := "0: ───@───M────────\n      │   │\n1: ───X───┼────────\n      │   │\n" ++
      "2: ───@───M('m')───"
    1 ≤ 3 ∧ (∀ p ∈ nested, p.Drawable 3) ∧ c.diagram = .ok text ∧ c.LaidOut text := by
  let _ : AngleLabel ℝ := ⟨fun _ => ""⟩
  have hdrawable : ∀ p ∈ nested, p.Drawable 3 := by
    intro p hp
    simp only [nested, List.mem_cons, List.not_mem_nil, or_false] at hp
    rcases hp with rfl | rfl | rfl
    · exact ⟨by decide, by decide, by decide, by decide⟩
    · exact ⟨by decide, by decide, by decide, by decide⟩
    · exact ⟨by decide, by decide, by decide, by decide⟩
  have hdrawn : ((empty 3).appendAll nested).diagram = .ok
      ("0: ───@───M────────\n      │   │\n1: ───X───┼────────\n      │   │\n" ++
        "2: ───@───M('m')───") := by
    decide +kernel
  obtain ⟨text, htext, hlaidOut, -⟩ := diagram_laidOut (by decide) hdrawable
  obtain rfl := Except.ok.inj (hdrawn.symm.trans htext)
  exact ⟨by decide, hdrawable, hdrawn, hlaidOut⟩

end MomentCircuit

end CircuitBroker
