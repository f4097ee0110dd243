/-
  CircuitBroker/Proofs/Circuit/Execution.lean
  ===========================================
  **Executing a circuit on bits.**

  Circuits of flips, exchanges and measurements need no amplitudes: every qubit has a value
  at every point of the log.  `Circuit.execute` runs such a log in order on bits that start
  at zero, and keeps the value each qubit had when it was last measured.  This is what a
  simulation of any backend's form of the circuit is compared with.

  An operation reads and writes only the qubits it touches, so operations that share no qubit
  may change places (`execute_comm`).
-/
import CircuitBroker.Proofs.Native.Implementation

namespace CircuitBroker

variable {R : Type}

/-! ## 1. Registers -/

/-- The value of each qubit, and the value it had when it was last measured. -/
@[ext]
structure Register where
  bits : Nat → Bool
  outcomes : Nat → Bool

namespace Register

def zero : Register := ⟨fun _ => false, fun _ => false⟩

def flip (controls : List Nat) (target : Nat) (bits : Nat → Bool) : Nat → Bool :=
  fun q => if q = target then xor (bits q) (controls.all bits) else bits q

def exchange (controls : List Nat) (a b : Nat) (bits : Nat → Bool) : Nat → Bool :=
  fun q =>
    if controls.all bits then
      if q = a then bits b else if q = b then bits a else bits q
    else bits q

def measure (qubits : List Nat) (r : Register) : Register :=
  { r with outcomes := fun q => if q ∈ qubits then r.bits q else r.outcomes q }

end Register

/-! ## 2. Execution -/

namespace Operation

/-- Whether an operation sends bits to bits: it does nothing, flips, exchanges or measures,
    and asks for no ancillas. -/
def isClassical (op : Operation R) : Bool :=
  match op.gate with
  | .i | .x | .cx | .ccx | .c3x | .c4x | .swap | .cswap | .dcx | .mcxgc | .mcxrec | .measure
  | .measureAll => true
  | .mcx | .mct => op.mode = .noAncilla
  | _ => false

/-- The bits after an operation that is no measurement.  Beside the exchanges, the last
    operand is flipped under all those before it. -/
def executeBits (op : Operation R) (bits : Nat → Bool) (q : Nat) : Bool :=
  match op.gate, op.operands with
  | .i, _ => bits q
  | .swap, [a, b] => Register.exchange [] a b bits q
  | .cswap, [c, a, b] => Register.exchange [c] a b bits q
  | .dcx, [a, b] => Register.flip [b] a (Register.flip [a] b bits) q
  | _, operands =>
    match operands.getLast? with
    | some target => Register.flip operands.dropLast target bits q
    | none => bits q

def execute (numQubits : Nat) (op : Operation R) (r : Register) : Register :=
  if op.gate.isMeasurement then r.measure (op.touched numQubits)
  else { r with bits := op.executeBits r.bits }

end Operation

/-- A log executed in order, from bits that are all zero. -/
def Circuit.execute (c : Circuit R) : Register :=
  c.operations.foldl (fun r op => op.execute c.numQubits r) .zero

/-! ## 3. Operations on different qubits -/

namespace Register

variable {bits bits' : Nat → Bool} {controls qubits : List Nat} {a b q target : Nat}

theorem all_congr {l : List Nat} (h : ∀ q ∈ l, bits q = bits' q) : l.all bits = l.all bits' := by
  induction l with
  | nil => rfl
  | cons q qs ih =>
    rw [List.all_cons, List.all_cons, h q List.mem_cons_self,
      ih fun r hr => h r (List.mem_cons_of_mem q hr)]

theorem flip_of_ne (h : q ≠ target) : flip controls target bits q = bits q := if_neg h

theorem exchange_of_ne (ha : q ≠ a) (hb : q ≠ b) : exchange controls a b bits q = bits q := by
  simp [exchange, ha, hb]

theorem flip_congr (hcontrols : ∀ q ∈ controls, bits q = bits' q) (h : bits q = bits' q) :
    flip controls target bits q = flip controls target bits' q := by
  rw [flip, flip, all_congr hcontrols, h]

theorem exchange_congr (hcontrols : ∀ q ∈ controls, bits q = bits' q) (ha : bits a = bits' a)
    (hb : bits b = bits' b) (h : bits q = bits' q) :
    exchange controls a b bits q = exchange controls a b bits' q := by
  rw [exchange, exchange, all_congr hcontrols, ha, hb, h]

end Register

namespace Operation

variable {op op' : Operation R} {n q : Nat} {bits bits' : Nat → Bool}

theorem executeBits_of_notMem (h : q ∉ op.operands) : op.executeBits bits q = bits q := by
  rw [executeBits]
  split
  · rfl
  · next a b _ hoperands =>
    rw [hoperands] at h
    exact Register.exchange_of_ne (fun he => h (by simp [he])) fun he => h (by simp [he])
  · next c a b _ hoperands =>
    rw [hoperands] at h
    exact Register.exchange_of_ne (fun he => h (by simp [he])) fun he => h (by simp [he])
  · next a b _ hoperands =>
    rw [hoperands] at h
    rw [Register.flip_of_ne fun he => h (by simp [he]),
      Register.flip_of_ne fun he => h (by simp [he])]
  · split
    · next target htarget =>
      refine Register.flip_of_ne ?_
      rintro rfl
      exact h (List.mem_of_getLast? htarget)
    · rfl

/-- The operands become what they become whatever the other bits are. -/
theorem executeBits_congr (h : ∀ q ∈ op.operands, bits q = bits' q) :
    ∀ q ∈ op.operands, op.executeBits bits q = op.executeBits bits' q := by
  intro q hq
  rw [executeBits, executeBits]
  split
  · exact h q hq
  · next a b _ hoperands =>
    rw [hoperands] at h hq
    exact Register.exchange_congr (by simp) (h a (by simp)) (h b (by simp)) (h q hq)
  · next c a b _ hoperands =>
    rw [hoperands] at h hq
    exact Register.exchange_congr (by simpa using h c (by simp)) (h a (by simp)) (h b (by simp))
      (h q hq)
  · next a b _ hoperands =>
    rw [hoperands] at h hq
    have hfirst : ∀ q ∈ [a, b], Register.flip [a] b bits q = Register.flip [a] b bits' q :=
      fun q hq => Register.flip_congr (by simpa using h a (by simp)) (h q hq)
    exact Register.flip_congr (by simpa using hfirst b (by simp)) (hfirst q hq)
  · split
    · exact Register.flip_congr (fun r hr => h r (List.mem_of_mem_dropLast hr)) (h q hq)
    · exact h q hq

/-- What an operation does not touch stays, outcomes included. -/
theorem execute_of_notMem (r : Register) (h : q ∉ op.touched n) :
    (op.execute n r).bits q = r.bits q ∧ (op.execute n r).outcomes q = r.outcomes q := by
  rw [execute]
  split
  · exact ⟨rfl, if_neg h⟩
  · next hgate =>
    rw [Operation.touched_of_gate (by simpa using hgate)] at h
    exact ⟨executeBits_of_notMem h, rfl⟩

/-- What an operation touches becomes what it becomes whatever the rest of the register is. -/
theorem execute_congr {r r' : Register}
    (h : ∀ q ∈ op.touched n, r.bits q = r'.bits q ∧ r.outcomes q = r'.outcomes q) :
    ∀ q ∈ op.touched n, (op.execute n r).bits q = (op.execute n r').bits q ∧
      (op.execute n r).outcomes q = (op.execute n r').outcomes q := by
  intro q hq
  rw [execute, execute]
  split
  · refine ⟨(h q hq).1, ?_⟩
    simp [Register.measure, hq, (h q hq).1]
  · next hgate =>
    rw [Operation.touched_of_gate (by simpa using hgate)] at h hq
    exact ⟨executeBits_congr (fun q hq => (h q hq).1) q hq, (h q hq).2⟩

/-- **Operations that share no qubit may change places.** -/
theorem execute_comm (h : op.Apart n op') (r : Register) :
    op'.execute n (op.execute n r) = op.execute n (op'.execute n r) := by
  have hleft : ∀ q ∈ op.touched n, q ∉ op'.touched n := fun q hq hq' => h hq hq'
  have hright : ∀ q ∈ op'.touched n, q ∉ op.touched n := fun q hq' hq => h hq hq'
  have heach : ∀ q, (op'.execute n (op.execute n r)).bits q =
      (op.execute n (op'.execute n r)).bits q ∧
      (op'.execute n (op.execute n r)).outcomes q =
        (op.execute n (op'.execute n r)).outcomes q := by
    intro q
    by_cases hq : q ∈ op.touched n
    · have hread := execute_congr (n := n) (r := op'.execute n r)
        (fun p hp => execute_of_notMem r (hleft p hp)) q hq
      have hkept := execute_of_notMem (op.execute n r) (hleft q hq)
      exact ⟨hkept.1.trans hread.1.symm, hkept.2.trans hread.2.symm⟩
    · have hkept := execute_of_notMem (op'.execute n r) hq
      by_cases hq' : q ∈ op'.touched n
      · have hread := execute_congr (n := n) (r := op.execute n r)
          (fun p hp => execute_of_notMem r (hright p hp)) q hq'
        exact ⟨hread.1.trans hkept.1.symm, hread.2.trans hkept.2.symm⟩
      · have hkept' := execute_of_notMem (op.execute n r) hq'
        have hself := execute_of_notMem r hq
        have hself' := execute_of_notMem r hq'
        exact ⟨(hkept'.1.trans hself.1).trans (hkept.1.trans hself'.1).symm,
          (hkept'.2.trans hself.2).trans (hkept.2.trans hself'.2).symm⟩
  ext q
  · exact (heach q).1
  · exact (heach q).2

end Operation

end CircuitBroker
