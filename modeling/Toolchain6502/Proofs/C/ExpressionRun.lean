import Mathlib.Logic.Function.Iterate
import Toolchain6502.Proofs.C.ExpressionValue
import Toolchain6502.Proofs.C.GeneratedLabels
import Toolchain6502.Proofs.Outcome

namespace Toolchain6502.C

open Cpu

/-- The bytes that the code of an expression writes. -/
def Spilled (b : Word) : Prop := b = leftCell ∨ b = rightCell ∨ b = countCell

theorem Spilled.mem_scratch {b : Word} (h : Spilled b) : b ∈ scratch := by
  rcases h with rfl | rfl | rfl <;> simp [scratch]

@[simp] theorem leftByte_cell : BitVec.ofInt 16 leftByte = leftCell := rfl
@[simp] theorem rightByte_cell : BitVec.ofInt 16 rightByte = rightCell := rfl
@[simp] theorem countByte_cell : BitVec.ofInt 16 countByte = countCell := rfl
@[simp] theorem comparedByte_cell : BitVec.ofInt 16 comparedByte = comparedCell := rfl

theorem Term.straight_load (s : State) (t : Term) :
    straight s t.load = some (s.load (t.value s.memory)) := by
  cases t <;> rfl

theorem Term.stores_load (s : State) (t : Term) : stores s t.load = [] := by
  cases t <;> rfl

theorem Term.value_congr {t : Term} {m m' : Memory} (h : ∀ b ∈ t.cells, m b = m' b) :
    t.value m = t.value m' := by
  cases t with
  | immediate v => rfl
  | byte address => exact h _ (by simp [Term.cells])

theorem Address.cell_congr {a : Address} {m m' : Memory} (h : ∀ b ∈ a.cells, m b = m' b) :
    a.cell m = a.cell m' := by
  obtain ⟨base, _ | (v | address)⟩ := a
  · rfl
  · rfl
  · have hindex := h (BitVec.ofInt 16 address) (by simp [Address.cells, Term.cells])
    simp [Address.cell, Term.offset, hindex]

/-- An access is one instruction at the cell, after the index register has been set if there is an
offset in a variable. -/
theorem Address.straight_access (s : State) (m : Mnemonic) (a : Address) :
    ∃ t : State, straight s (a.access m) = t.perform m (.cell (a.cell s.memory)) ∧
      t.memory = s.memory ∧ t.a = s.a ∧
      stores s (a.access m) = (written? m (.cell (a.cell s.memory))).toList := by
  obtain ⟨base, _ | (v | address)⟩ := a
  · have hcell : Address.cell s.memory ⟨base, none⟩ = BitVec.ofInt 16 base.toInt := by
      simp [Address.cell]
    rw [hcell]
    exact ⟨s, straight_single rfl, rfl, rfl, stores_single _ _⟩
  · have hcell : Address.cell s.memory ⟨base, some (.immediate v)⟩ =
        BitVec.ofInt 16 ((base.toInt + v.toInt) % 0x10000) := by
      apply BitVec.eq_of_toInt_eq
      simp [Address.cell, Term.offset, Int.bmod_def]
    rw [hcell]
    exact ⟨s, straight_single rfl, rfl, rfl, stores_single _ _⟩
  · let t := s.loadY (s.memory (BitVec.ofInt 16 address))
    have hcell : Address.cell s.memory ⟨base, some (.byte address)⟩ =
        BitVec.ofInt 16 base.toInt + t.y.setWidth 16 := by
      simp only [Address.cell, Term.offset, Option.map_some, Option.getD_some, BitVec.ofInt_add,
        BitVec.ofInt_natCast, BitVec.ofNat_toNat]
      rfl
    have hindex : s.perform .ldy ((CodeOperand.zeroPage address).place s) = some t := rfl
    rw [hcell]
    refine ⟨t, ?_, rfl, rfl, ?_⟩
    · exact (straight_cons rfl hindex).trans (straight_single rfl)
    · exact (stores_cons hindex).trans (stores_single _ _)

theorem iterate_shiftLeft (k : Nat) (x : Byte) :
    (fun y : Byte => y <<< 1)^[k] x = x <<< k := by
  induction k with
  | zero => simp
  | succ k ih => rw [Function.iterate_succ_apply', ih, BitVec.shiftLeft_add]

theorem iterate_ushiftRight (k : Nat) (x : Byte) :
    (fun y : Byte => y >>> 1)^[k] x = x >>> k := by
  induction k with
  | zero => simp
  | succ k ih => rw [Function.iterate_succ_apply', ih, BitVec.shiftRight_add]

section
variable {program : Code} (hdistinct : (labelsOf program).Nodup)

include hdistinct

/-- The loop of a shift goes round as often as the count says. -/
theorem Crosses.shiftLoop {shift : Mnemonic} {n line : Nat}
    (hcode : CodeAt program line (shiftCode shift n)) {f : Byte → Byte}
    (hshift : ∀ s : State, ∃ t, s.perform shift (.cell leftCell) = some t ∧
      t.memory = Function.update s.memory leftCell (f (s.memory leftCell)))
    (s : State) :
    ∃ (passed : List Point) (t : State),
      Crosses program Spilled (line + 4) (line + 10) ⟨line + 4, s⟩ passed ⟨line + 10, t⟩ ∧
      passed.countP (·.line == line + 7) = (s.memory countCell).toNat ∧
      t.memory leftCell = f^[(s.memory countCell).toNat] (s.memory leftCell) := by
  have hload (s : State) : Step program Spilled ⟨line + 5, s⟩
      ⟨line + 6, s.load (s.memory countCell)⟩ :=
    .instruction (hcode 5 _ rfl) rfl rfl (by simp [written?])
  -- the induction is on the count that is left
  induction hk : (s.memory countCell).toNat generalizing s with
  | zero =>
    have hzero : s.memory countCell = 0 := BitVec.eq_of_toNat_eq hk
    have hleave : Step program Spilled ⟨line + 6, s.load (s.memory countCell)⟩
        ⟨line + 10, s.load (s.memory countCell)⟩ :=
      .branch hdistinct (hcode 6 _ rfl) (by simp [State.branch?, State.load, hzero]) (hcode 10 _ rfl)
    refine ⟨_, _, .step (.label (hcode 4 _ rfl)) (by simp) (by simp) <|
      .step (hload s) (by simp) (by simp) <| .step hleave (by simp) (by simp) (.done _), ?_, rfl⟩
    simp
  | succ k ih =>
    have hone : s.memory countCell ≠ 0#8 := by
      intro hzero
      simp [hzero] at hk
    obtain ⟨t, ht, htm⟩ := hshift (s.load (s.memory countCell))
    let u := t.change countCell (t.memory countCell - 1)
    have hcount : u.memory countCell = s.memory countCell - 1 := by
      simp [u, State.change, State.store, htm, State.load]
    have hleft : u.memory leftCell = f (s.memory leftCell) := by
      simp [u, State.change, State.store, htm, State.load]
    have hstay : Step program Spilled ⟨line + 6, s.load (s.memory countCell)⟩
        ⟨line + 7, s.load (s.memory countCell)⟩ :=
      .fall (hcode 6 _ rfl) (by simp [State.branch?, State.load, hone])
    have hshifted : Step program Spilled ⟨line + 7, s.load (s.memory countCell)⟩ ⟨line + 8, t⟩ :=
      .instruction (hcode 7 _ rfl) rfl ht fun b hb => .inl (cell_of_written hb).symm
    have hcounted : Step program Spilled ⟨line + 8, t⟩ ⟨line + 9, u⟩ :=
      .instruction (hcode 8 _ rfl) rfl rfl fun b hb => .inr (.inr (cell_of_written hb).symm)
    have hback : Step program Spilled ⟨line + 9, u⟩ ⟨line + 4, u⟩ :=
      .jump hdistinct (hcode 9 _ rfl) (hcode 4 _ rfl)
    have hk' : (u.memory countCell).toNat = k := by
      rw [hcount]
      bv_omega
    obtain ⟨passed, v, hpassed, hrounds, hresult⟩ := ih u hk'
    refine ⟨_, v, .step (.label (hcode 4 _ rfl)) (by simp) (by simp) <|
      .step (hload s) (by simp) (by simp) <| .step hstay (by simp) (by simp) <|
      .step hshifted (by simp) (by simp) <| .step hcounted (by simp) (by simp) <|
      .step hback (by simp) (by simp) hpassed, ?_, ?_⟩
    · simp [hrounds]
    · rw [hresult, hleft, Function.iterate_succ_apply]

/-- A shift goes by the low three bits of the right byte. -/
theorem Crosses.shift {shift : Mnemonic} {n line : Nat}
    (hcode : CodeAt program line (shiftCode shift n)) {f : Byte → Byte}
    (hshift : ∀ s : State, ∃ t, s.perform shift (.cell leftCell) = some t ∧
      t.memory = Function.update s.memory leftCell (f (s.memory leftCell)))
    (s : State) :
    ∃ (passed : List Point) (t : State),
      Crosses program Spilled line (line + 12) ⟨line, s⟩ passed ⟨line + 12, t⟩ ∧
      passed.countP (·.line == line + 7) = (s.memory rightCell).toNat % 8 ∧
      t.a = f^[(s.memory rightCell).toNat % 8] s.a ∧ t.memory leftCell = t.a := by
  let u := ((s.store leftCell s.a).load (s.memory rightCell &&& 7)).store countCell
    (s.memory rightCell &&& 7)
  have hstores : stores s ((shiftCode shift n).take 4) = [leftCell, countCell] := rfl
  obtain ⟨first, hfirst, -⟩ : ∃ passed, Crosses program Spilled line (line + 4) ⟨line, s⟩ passed
      ⟨line + 4, u⟩ ∧ _ :=
    Crosses.straight _ (hcode.take 4) rfl (by simp [hstores, Spilled])
  have hcount : (u.memory countCell).toNat = (s.memory rightCell).toNat % 8 := by
    have hmask : (s.memory rightCell &&& 7).toNat = (s.memory rightCell).toNat % 2 ^ 3 := by
      rw [BitVec.toNat_and]
      exact Nat.and_two_pow_sub_one_eq_mod _ 3
    simpa [u, State.store] using hmask
  have hleft : u.memory leftCell = s.a := by
    simp [u, State.store, State.load]
  obtain ⟨rounds, v, hrounds, hpassed, hresult⟩ := Crosses.shiftLoop hdistinct hcode hshift u
  have hload : Step program Spilled ⟨line + 11, v⟩ ⟨line + 12, v.load (v.memory leftCell)⟩ :=
    .instruction (hcode 11 _ rfl) rfl rfl (by simp [written?])
  have hlast : Crosses program Spilled line (line + 12) ⟨line + 10, v⟩ _
      ⟨line + 12, v.load (v.memory leftCell)⟩ :=
    .step (.label (hcode 10 _ rfl)) (by simp) (by simp) <|
      .step hload (Nat.le_add_right line 11) (by simp) (.done _)
  refine ⟨_, _, ((hfirst.widen (Nat.le_refl line) (by omega)).trans
    (hrounds.widen (by omega) (by omega))).trans hlast, ?_, ?_, rfl⟩
  · have hnone : first.countP (·.line == line + 7) = 0 := hfirst.countP_eq_zero (by omega)
    simp [List.countP_append, hnone, hpassed, hcount]
  · rw [← hcount, ← hleft]
    exact hresult

/-- The code of an operator combines the accumulator with the right byte. If it is a shift, the
line that shifts is passed as often as the right byte says. -/
theorem BinOp.crosses (op : BinOp) {n line : Nat} (hcode : CodeAt program line (op.code n).1)
    (s : State) :
    ∃ (passed : List Point) (t : State),
      Crosses program Spilled line (line + (op.code n).1.length) ⟨line, s⟩ passed
        ⟨line + (op.code n).1.length, t⟩ ∧
      (op.isShift = true →
        passed.countP (·.line == line + 7) = (s.memory rightCell).toNat % 8) ∧
      t.a = op.apply s.a (s.memory rightCell) ∧
      t.memory leftCell = if op.isShift then t.a else s.memory leftCell := by
  -- an operator without a loop
  have hflat (t : State) (hstraight : straight s (op.code n).1 = some t)
      (hstores : stores s (op.code n).1 = []) (hshift : op.isShift = false)
      (ha : t.a = op.apply s.a (s.memory rightCell))
      (hleft : t.memory leftCell = s.memory leftCell) :
      ∃ (passed : List Point) (t : State),
        Crosses program Spilled line (line + (op.code n).1.length) ⟨line, s⟩ passed
          ⟨line + (op.code n).1.length, t⟩ ∧
        (op.isShift = true →
          passed.countP (·.line == line + 7) = (s.memory rightCell).toNat % 8) ∧
        t.a = op.apply s.a (s.memory rightCell) ∧
        t.memory leftCell = if op.isShift then t.a else s.memory leftCell := by
    obtain ⟨passed, hpassed⟩ := Crosses.quiet Spilled hcode hstraight hstores
    exact ⟨passed, t, hpassed, by simp [hshift], ha, by simp [hshift, hleft]⟩
  cases op with
  | shl =>
    have hcode' : CodeAt program line (shiftCode .asl n) := hcode
    obtain ⟨passed, t, hpassed, hrounds, ha, hkept⟩ := Crosses.shift hdistinct hcode'
      (f := (· <<< 1)) (fun s => ⟨_, rfl, rfl⟩) s
    exact ⟨passed, t, hpassed, fun _ => hrounds, by rw [ha, iterate_shiftLeft]; rfl, hkept⟩
  | shr =>
    have hcode' : CodeAt program line (shiftCode .lsr n) := hcode
    obtain ⟨passed, t, hpassed, hrounds, ha, hkept⟩ := Crosses.shift hdistinct hcode'
      (f := (· >>> 1)) (fun s => ⟨_, rfl, rfl⟩) s
    exact ⟨passed, t, hpassed, fun _ => hrounds, by rw [ha, iterate_ushiftRight]; rfl, hkept⟩
  | add =>
    let u : State := { s with carry := false }
    exact hflat (u.addWithCarry (s.memory rightCell)) rfl rfl rfl (u.addWithCarry_clear _ rfl) rfl
  | sub =>
    let u : State := { s with carry := true }
    exact hflat (u.addWithCarry (~~~s.memory rightCell)) rfl rfl rfl (u.addWithCarry_not _ rfl) rfl
  | and => exact hflat _ rfl rfl rfl rfl rfl
  | xor => exact hflat _ rfl rfl rfl rfl rfl
  | or => exact hflat _ rfl rfl rfl rfl rfl

end

theorem Expr.code_complement (e : Expr) (n : Nat) :
    ((complement e).code n).1 = (e.code n).1 ++ [withValue .eor 0xFF] := rfl

theorem Expr.code_binary (op : BinOp) (left right : Expr) (n : Nat) :
    ((binary op left right).code n).1 =
      (left.code n).1 ++ [onByte .sta leftByte] ++ (right.code (left.code n).2).1 ++
        [onByte .sta rightByte, onByte .lda leftByte] ++
        (op.code (right.code (left.code n).2).2).1 := rfl

/-- A memory is the one before, outside the bytes that generated code takes. -/
def Agrees (m' m : Memory) : Prop := ∀ b, b ∉ scratch → m' b = m b

theorem Agrees.trans {m m' m'' : Memory} (h : Agrees m'' m') (h' : Agrees m' m) :
    Agrees m'' m :=
  fun b hb => (h b hb).trans (h' b hb)

theorem Agrees.store {s : State} {m : Memory} (h : Agrees s.memory m) {b : Word}
    (hb : b ∈ scratch) (v : Byte) : Agrees (s.store b v).memory m := by
  intro c hc
  have hne : c ≠ b := fun he => hc (he ▸ hb)
  rw [State.store_memory, Function.update_of_ne hne]
  exact h c hc

theorem Runs.agrees {program : Code} {p q : Point} (h : Runs program Spilled p q) :
    Agrees q.state.memory p.state.memory :=
  fun _ hb => h.memory fun hs => hb hs.mem_scratch

/-- What the code of an expression leaves, in any program around it. -/
theorem Expr.runs {program : Code} (hdistinct : (labelsOf program).Nodup) {m : Memory} {e : Expr}
    (havoids : e.Avoids m) {n line : Nat} (hcode : CodeAt program line (e.code n).1) {s : State}
    (hs : Agrees s.memory m) :
    ∃ t : State, Runs program Spilled ⟨line, s⟩ ⟨line + (e.code n).1.length, t⟩ ∧
      t.a = (e.computed m).1 ∧
      t.memory leftCell = (e.computed m).2.getD (s.memory leftCell) := by
  induction e generalizing n line s with
  | term t =>
    refine ⟨_, Runs.quiet hcode (t.straight_load s) (t.stores_load s), ?_, rfl⟩
    exact Term.value_congr fun b hb => hs b (havoids b hb)
  | memory a =>
    obtain ⟨t, hstraight, htm, -, hstores⟩ := a.straight_access s .lda
    have hcell : a.cell s.memory = a.cell m :=
      Address.cell_congr fun b hb => hs b (havoids b (by simp [Expr.reads, hb]))
    refine ⟨_, Runs.quiet hcode hstraight hstores, ?_, ?_⟩
    · simp only [State.load, htm, hcell, Expr.computed]
      exact hs _ (havoids _ (by simp [Expr.reads]))
    · simp [State.load, htm, Expr.computed]
  | complement e ih =>
    rw [Expr.code_complement] at hcode ⊢
    obtain ⟨t, hrun, ha, hleft⟩ := ih havoids hcode.left hs
    refine ⟨t.load (t.a ^^^ 0xFF), hrun.append (Runs.quiet hcode.right rfl rfl), ?_, hleft⟩
    simp [State.load, Expr.computed, ha]
  | binary op left right ihl ihr =>
    have havoidsl : left.Avoids m := fun b hb => havoids b (by simp [Expr.reads, hb])
    have havoidsr : right.Avoids m := fun b hb => havoids b (by simp [Expr.reads, hb])
    rw [Expr.code_binary] at hcode ⊢
    -- the left operand is put away
    obtain ⟨t, hrunl, hal, -⟩ := ihl havoidsl hcode.left.left.left.left hs
    have hstoresl : stores t [onByte .sta leftByte] = [leftCell] := rfl
    have hput : Runs program Spilled _ ⟨_, t.store leftCell t.a⟩ :=
      Runs.straight hcode.left.left.left.right rfl (by simp [hstoresl, Spilled])
    have ht : Agrees (t.store leftCell t.a).memory m := by
      refine Agrees.store (hrunl.agrees.trans hs) ?_ _
      simp [scratch]
    -- and the right operand may write over it
    obtain ⟨u, hrunr, har, hheld⟩ := ihr havoidsr hcode.left.left.right ht
    have hstoresr : stores u [onByte .sta rightByte, onByte .lda leftByte] = [rightCell] := rfl
    let w := (u.store rightCell u.a).load ((u.store rightCell u.a).memory leftCell)
    have hback : Runs program Spilled _ ⟨_, w⟩ :=
      Runs.straight hcode.left.right rfl (by simp [hstoresr, Spilled])
    have hw : w.a = (right.computed m).2.getD (left.computed m).1 := by
      simp [w, hheld, hal]
    have hwr : w.memory rightCell = (right.computed m).1 := by
      simp [w, har]
    obtain ⟨passed, v, hrunop, -, hav, hkept⟩ := op.crosses hdistinct hcode.right w
    refine ⟨v, (((hrunl.append hput).append hrunr).append hback).append hrunop.runs, ?_, ?_⟩
    · rw [hav, hw, hwr]
      rfl
    · have hwl : w.memory leftCell = w.a := rfl
      rw [hkept, hwl, hav, hw, hwr]
      rfl

/-- The code of an expression runs to its end and leaves a value of the memory before it in the
accumulator, if no access meets a byte that the code takes. -/
def Expr.Leaves (e : Expr) (result : Memory → Byte) : Prop :=
  ∀ (n : Nat) (s : State), e.Avoids s.memory →
    ∃ t : State, Runs (e.code n).1 Spilled ⟨0, s⟩ ⟨(e.code n).1.length, t⟩ ∧
      t.a = result s.memory

theorem Expr.leaves_computed (e : Expr) : e.Leaves fun m => (e.computed m).1 := by
  intro n s havoids
  obtain ⟨t, hrun, ha, -⟩ := Expr.runs (e.code_generated n).nodup havoids (codeAt_self _)
    (s := s) fun _ _ => rfl
  exact ⟨t, by simpa using hrun, ha⟩

theorem Expr.Leaves.unique {e : Expr} {f g : Memory → Byte} (hf : e.Leaves f) (hg : e.Leaves g)
    {s : State} (havoids : e.Avoids s.memory) : f s.memory = g s.memory := by
  obtain ⟨t, hrun, ha⟩ := hf 0 s havoids
  obtain ⟨t', hrun', ha'⟩ := hg 0 s havoids
  have hend (u : State) : advance (e.code 0).1 ⟨(e.code 0).1.length, u⟩ = none := by
    simp [advance]
  obtain ⟨-, rfl⟩ := Point.mk.inj (hrun.unique hrun' (hend t) (hend t'))
  exact ha.symm.trans ha'

/-- The code of every expression leaves what `Expr.computed` says. That is the value, whatever the
leaves are, exactly for the shapes in which no right operand holds a binary operator. -/
theorem Expr.code_leaves_value_iff (e : Expr) :
    e.Leaves (fun m => (e.computed m).1) ∧
      (e.rightFlat = true ↔ ∀ f : Expr, f.shape = e.shape → f.Leaves fun m => f.value m) := by
  refine ⟨e.leaves_computed, ?_, ?_⟩
  · intro hflat f hshape n s havoids
    have hflat' : f.rightFlat = true := by
      rw [← f.rightFlat_shape, hshape, e.rightFlat_shape, hflat]
    obtain ⟨t, hrun, ha⟩ := f.leaves_computed n s havoids
    exact ⟨t, hrun, ha.trans (computed_eq_value hflat' s.memory)⟩
  · intro hvalue
    by_contra hflat
    obtain ⟨f, hshape, hliteral, hne⟩ := exists_computed_ne (Bool.eq_false_iff.mpr hflat)
    let s : State := ⟨0, 0, false, false, fun _ => 0⟩
    have havoids : f.Avoids s.memory := by
      intro b hb
      simp [hliteral.reads_eq] at hb
    exact hne s.memory (f.leaves_computed.unique (hvalue f hshape) havoids)

def nestedSum : Expr := .binary .add (literal 1) (.binary .add (literal 2) (literal 3))

/-- The sum of two and three takes the place of the one that it should be added to. -/
theorem nestedSum_leaves_seven :
    readExpression {} "1 + (2 + 3)".toList = .ok nestedSum ∧
      (∀ m, nestedSum.value m = 6) ∧ nestedSum.Leaves (fun _ => 7) ∧
      ¬ nestedSum.Leaves fun m => nestedSum.value m := by
  have hseven : nestedSum.Leaves fun _ => 7 := nestedSum.leaves_computed
  refine ⟨eq_ok_of_toOption (by decide +kernel), fun _ => rfl, hseven, fun hsix => ?_⟩
  let s : State := ⟨0, 0, false, false, fun _ => 0⟩
  have havoids : nestedSum.Avoids s.memory := by
    intro b hb
    simp [nestedSum, literal, Expr.reads, Term.cells] at hb
  have : (7 : Byte) = 6 := hseven.unique hsix havoids
  exact absurd this (by decide)

end Toolchain6502.C
