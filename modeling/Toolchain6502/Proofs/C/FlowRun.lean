import Toolchain6502.Proofs.C.ExpressionRun
import Toolchain6502.Proofs.C.Flow

namespace Toolchain6502.C

open Cpu

/-- Accesses that generated code may share the memory with: they keep off the bytes that it takes,
and write only where it is allowed. -/
structure Permits (writable : Word → Prop) (log : List Access) : Prop where
  apart : ∀ a ∈ log, a.cell ∉ scratch
  written : ∀ b, .write b ∈ log → writable b

section
variable {writable : Word → Prop}

theorem Permits.left {first second : List Access} (h : Permits writable (first ++ second)) :
    Permits writable first :=
  ⟨fun a ha => h.apart a (by simp [ha]), fun b hb => h.written b (by simp [hb])⟩

theorem Permits.right {first second : List Access} (h : Permits writable (first ++ second)) :
    Permits writable second :=
  ⟨fun a ha => h.apart a (by simp [ha]), fun b hb => h.written b (by simp [hb])⟩

theorem Permits.not_mem_scratch {cells : List Word} (h : Permits writable (cells.map .read))
    {b : Word} (hb : b ∈ cells) : b ∉ scratch :=
  h.apart (.read b) (List.mem_map_of_mem hb)

end

/-- Where a run ends up: after the code, or at an instruction that leaves the function. -/
def Arrives (program : Code) (function : String) (after : Nat) : Ending → Nat → Prop
  | .next, line => line = after
  | .left, line => program[line]? = some (leaveCode function)

section
variable {program : Code} {writable : Word → Prop} {function : String} {n line : Nat}
  {s : State} {m : Memory}

theorem Expr.runs_value (hdistinct : (labelsOf program).Nodup) (hscratch : ∀ b ∈ scratch, writable b)
    {e : Expr} (hflat : e.rightFlat = true) (hpermits : Permits writable ((e.reads m).map .read))
    (hcode : CodeAt program line (e.code n).1) (hs : Agrees s.memory m) :
    ∃ t : State, Runs program writable ⟨line, s⟩ ⟨line + (e.code n).1.length, t⟩ ∧
      t.a = e.value m ∧ Agrees t.memory m ∧ t.memory comparedCell = s.memory comparedCell := by
  have havoids : e.Avoids m := fun b hb => hpermits.not_mem_scratch hb
  obtain ⟨t, hrun, ha, -⟩ := Expr.runs hdistinct havoids hcode hs
  refine ⟨t, hrun.mono fun b hb => hscratch b hb.mem_scratch, ?_, hrun.agrees.trans hs, ?_⟩
  · rw [ha, Expr.computed_eq_value hflat]
  · apply hrun.memory
    unfold Spilled
    decide

theorem Agrees.update {m' : Memory} (h : Agrees m' m) (b : Word) (v : Byte) :
    Agrees (Function.update m' b v) (Function.update m b v) := by
  intro c hc
  by_cases hcb : c = b
  · rw [hcb, Function.update_self, Function.update_self]
  · rw [Function.update_of_ne hcb, Function.update_of_ne hcb]
    exact h c hc

theorem Runs.inPlace {mnemonic : Mnemonic} {address : Int}
    (hcode : program[line]? = some (onByte mnemonic address)) {f : Byte → Byte}
    (hperform : ∀ (s : State) (b : Word),
      s.perform mnemonic (.cell b) = some (s.change b (f (s.memory b))))
    (hpermits : Permits writable
      [.read (BitVec.ofInt 16 address), .write (BitVec.ofInt 16 address)])
    (hs : Agrees s.memory m) :
    ∃ t : State, Runs program writable ⟨line, s⟩ ⟨line + 1, t⟩ ∧ Agrees t.memory
      (Function.update m (BitVec.ofInt 16 address) (f (m (BitVec.ofInt 16 address)))) := by
  have hcell : s.memory (BitVec.ofInt 16 address) = m (BitVec.ofInt 16 address) :=
    hs _ (hpermits.apart (.read (BitVec.ofInt 16 address)) (by simp))
  refine ⟨_, Runs.instruction hcode rfl (hperform s _) ?_, ?_⟩
  · intro b hb
    rw [← cell_of_written hb]
    exact hpermits.written _ (by simp)
  · rw [State.change_memory, hcell]
    exact hs.update _ _

theorem Expr.runs_write (hdistinct : (labelsOf program).Nodup)
    (hscratch : ∀ b ∈ scratch, writable b) {value : Expr} (cells : List Word) (cell : Word)
    (code : Code) (hflat : value.rightFlat = true)
    (hpermits : Permits writable (setEffect m (value.reads m ++ cells) cell (value.value m)).accesses)
    (hcode : CodeAt program line ((value.code n).1 ++ code)) (hs : Agrees s.memory m)
    (hwrite : ∀ t : State, Agrees t.memory m → ∃ u : State, straight t code = some u ∧
      u.memory = Function.update t.memory cell t.a ∧ stores t code = [cell]) :
    ∃ t : State, Runs program writable ⟨line, s⟩ ⟨line + ((value.code n).1 ++ code).length, t⟩ ∧
      Agrees t.memory (Function.update m cell (value.value m)) := by
  simp only [setEffect, List.map_append] at hpermits
  obtain ⟨t, hrun, ha, ht, -⟩ :=
    Expr.runs_value hdistinct hscratch hflat hpermits.left.left hcode.left hs
  obtain ⟨u, hstraight, hmemory, hstores⟩ := hwrite t ht
  refine ⟨u, hrun.append (Runs.straight hcode.right hstraight ?_), ?_⟩
  · intro b hb
    rw [hstores, List.mem_singleton] at hb
    exact hb ▸ hpermits.written cell (by simp)
  · rw [hmemory, ha]
    exact ht.update _ _

theorem Statement.runs (hdistinct : (labelsOf program).Nodup)
    (hscratch : ∀ b ∈ scratch, writable b) {st : Statement} {e : Effect}
    (h : st.effect? m = some e) (hflat : st.rightFlat = true)
    (hpermits : Permits writable e.accesses) (hcode : CodeAt program line (st.code function n).1)
    (hs : Agrees s.memory m) :
    ∃ (line' : Nat) (t : State), Runs program writable ⟨line, s⟩ ⟨line', t⟩ ∧
      Agrees t.memory e.memory ∧
      Arrives program function (line + (st.code function n).1.length) e.ending line' := by
  cases st with
  | leave =>
    obtain rfl := Option.some.inj h
    exact ⟨line, s, .refl, hs, hcode.head⟩
  | call name => simp [Statement.effect?] at h
  | increment address =>
    obtain rfl := Option.some.inj h
    have hline : program[line]? = some (onByte .inc address) := hcode.head
    obtain ⟨t, hrun, ht⟩ := Runs.inPlace hline (f := (· + 1)) (fun _ _ => rfl) hpermits hs
    exact ⟨_, t, hrun, ht, rfl⟩
  | decrement address =>
    obtain rfl := Option.some.inj h
    have hline : program[line]? = some (onByte .dec address) := hcode.head
    obtain ⟨t, hrun, ht⟩ := Runs.inPlace hline (f := (· - 1)) (fun _ _ => rfl) hpermits hs
    exact ⟨_, t, hrun, ht, rfl⟩
  | assign address value =>
    obtain rfl := Option.some.inj h
    obtain ⟨t, hrun, ht⟩ := Expr.runs_write hdistinct hscratch [] (BitVec.ofInt 16 address)
      [onByte .sta address] hflat (by simpa using hpermits) hcode hs
      (fun t _ => ⟨_, rfl, rfl, rfl⟩)
    exact ⟨_, t, hrun, ht, rfl⟩
  | store address value =>
    obtain rfl := Option.some.inj h
    have hcells : ∀ b ∈ address.cells, b ∉ scratch := by
      intro b hb
      exact hpermits.apart (.read b) (by simp [setEffect, hb])
    obtain ⟨t, hrun, ht⟩ := Expr.runs_write hdistinct hscratch address.cells (address.cell m)
      (address.access .sta) hflat hpermits hcode hs (by
        intro t ht
        have hcell : address.cell t.memory = address.cell m :=
          Address.cell_congr fun b hb => ht b (hcells b hb)
        obtain ⟨u, hstraight, hmemory, hu, hstores⟩ := address.straight_access t .sta
        rw [hcell] at hstraight hstores
        exact ⟨_, hstraight, by rw [State.store_memory, hmemory, hu], hstores⟩)
    exact ⟨_, t, hrun, ht, rfl⟩

theorem Step.unless (hdistinct : (labelsOf program).Nodup) {mnemonic : Mnemonic} {name : String}
    {target : Nat} {holds : Bool} (hcode : program[line]? = some (toLabel mnemonic name))
    (hbranch : s.branch? mnemonic = some !holds)
    (htarget : program[target]? = some (.label name)) :
    Step program writable ⟨line, s⟩ ⟨if holds then line + 1 else target, s⟩ := by
  cases holds with
  | false => exact Step.branch hdistinct hcode hbranch htarget
  | true => exact Step.fall hcode hbranch

theorem Crosses.unless (hdistinct : (labelsOf program).Nodup) {mnemonic : Mnemonic} {name : String}
    {target : Nat} {holds : Bool} (hcode : program[line]? = some (toLabel mnemonic name))
    (hbranch : s.branch? mnemonic = some !holds)
    (htarget : program[target]? = some (.label name)) :
    ∃ passed, Crosses program writable line (line + 1) ⟨line, s⟩ passed
      ⟨if holds then line + 1 else target, s⟩ :=
  ⟨_, .step (.unless hdistinct hcode hbranch htarget) (Nat.le_refl line) (Nat.lt_succ_self line)
    (.done _)⟩

variable (writable) in
theorem Crosses.unlessGreater (hdistinct : (labelsOf program).Nodup) {name : String} {target : Nat}
    (hbelow : program[line]? = some (toLabel .bcc name))
    (hequal : program[line + 1]? = some (toLabel .beq name))
    (htarget : program[target]? = some (.label name)) {x y : Byte}
    (hcarry : s.carry = decide (y.toNat ≤ x.toNat)) (hzero : s.zero = (x == y)) :
    ∃ passed, Crosses program writable line (line + 2) ⟨line, s⟩ passed
      ⟨if y.toNat < x.toNat then line + 2 else target, s⟩ := by
  have hfirst : Step program writable ⟨line, s⟩
      ⟨if decide (y.toNat ≤ x.toNat) then line + 1 else target, s⟩ :=
    .unless hdistinct hbelow (by simp [State.branch?, hcarry]) htarget
  have hsecond : Step program writable ⟨line + 1, s⟩ ⟨if x != y then line + 2 else target, s⟩ :=
    .unless hdistinct hequal (by simp [State.branch?, hzero, bne]) htarget
  by_cases hle : y.toNat ≤ x.toNat
  · rw [if_pos (decide_eq_true hle)] at hfirst
    have hiff : (if x != y then line + 2 else target) =
        if y.toNat < x.toNat then line + 2 else target := by
      by_cases hxy : x = y
      · simp [hxy]
      · have hne : x.toNat ≠ y.toNat := fun h => hxy (BitVec.eq_of_toNat_eq h)
        rw [if_pos (bne_iff_ne.mpr hxy), if_pos (by omega)]
    rw [hiff] at hsecond
    exact ⟨_, .step hfirst (Nat.le_refl line) (Nat.lt_add_of_pos_right (by decide)) <|
      .step hsecond (Nat.le_succ line) (Nat.lt_succ_self _) (.done _)⟩
  · rw [if_neg (by simpa using hle)] at hfirst
    rw [if_neg (by omega)]
    exact ⟨_, .step hfirst (Nat.le_refl line) (Nat.lt_add_of_pos_right (by decide)) (.done _)⟩

variable (writable) in
theorem Comparison.crosses (op : Comparison) (hdistinct : (labelsOf program).Nodup)
    {otherwise : String} {target : Nat} (hcode : CodeAt program line (op.code n otherwise).1)
    (htarget : program[target]? = some (.label otherwise)) {x y : Byte}
    (hcarry : s.carry = decide (y.toNat ≤ x.toNat)) (hzero : s.zero = (x == y)) :
    ∃ passed, Crosses program writable line (line + (op.code n otherwise).1.length) ⟨line, s⟩ passed
      ⟨if op.holds x y then line + (op.code n otherwise).1.length else target, s⟩ := by
  cases op with
  | eq => exact Crosses.unless hdistinct hcode.head (by simp [State.branch?, hzero, holds]) htarget
  | ne =>
    refine Crosses.unless hdistinct hcode.head ?_ htarget
    simp [State.branch?, hzero, holds, bne]
  | lt =>
    refine Crosses.unless hdistinct hcode.head ?_ htarget
    have hnot : decide (y.toNat ≤ x.toNat) = !decide (x.toNat < y.toNat) := by
      rw [← decide_not]
      exact decide_eq_decide.mpr Nat.not_lt.symm
    simp only [State.branch?, hcarry, hnot, holds]
  | ge =>
    refine Crosses.unless hdistinct hcode.head ?_ htarget
    simp [State.branch?, hcarry, holds]
  | gt =>
    simp only [holds, decide_eq_true_eq]
    exact Crosses.unlessGreater writable hdistinct hcode.head hcode.tail.head htarget hcarry hzero
  | le =>
    -- both branches lead to the label after the jump
    have hlabel : program[line + 3]? = some (.label (generatedLabel "CCMPOK" n)) := hcode 3 _ rfl
    obtain ⟨passed, hpassed⟩ := Crosses.unlessGreater writable hdistinct hcode.head
      hcode.tail.head hlabel hcarry hzero
    replace hpassed := hpassed.widen (Nat.le_refl line) (Nat.add_le_add_left (by decide : 2 ≤ 4) line)
    simp only [holds, decide_eq_true_eq]
    by_cases hgt : y.toNat < x.toNat
    · rw [if_pos hgt] at hpassed
      rw [if_neg (by omega)]
      exact ⟨_, hpassed.trans <| .step (.jump hdistinct (hcode 2 _ rfl) htarget)
        (Nat.le_add_right line 2) (Nat.add_lt_add_left (by decide : 2 < 4) line) (.done _)⟩
    · rw [if_neg hgt] at hpassed
      rw [if_pos (by omega)]
      exact ⟨_, hpassed.trans <| .step (.label hlabel) (Nat.le_add_right line 3)
        (Nat.lt_succ_self _) (.done _)⟩

theorem Condition.code_eq (c : Condition) (n : Nat) (otherwise : String) :
    (c.code n otherwise).1 = (c.left.code n).1 ++ [onByte .sta comparedByte] ++
      (c.right.code (c.left.code n).2).1 ++
      [onByte .sta rightByte, onByte .lda comparedByte, onByte .cmp rightByte] ++
      (c.op.code (c.right.code (c.left.code n).2).2 otherwise).1 := rfl

theorem Condition.runs (hdistinct : (labelsOf program).Nodup)
    (hscratch : ∀ b ∈ scratch, writable b) {c : Condition} (hflat : c.rightFlat = true)
    (hpermits : Permits writable (c.accesses m)) {otherwise : String} {target : Nat}
    (hcode : CodeAt program line (c.code n otherwise).1)
    (htarget : program[target]? = some (.label otherwise)) (hs : Agrees s.memory m) :
    ∃ t : State, Runs program writable ⟨line, s⟩
        ⟨if c.holds m then line + (c.code n otherwise).1.length else target, t⟩ ∧
      Agrees t.memory m := by
  rw [Condition.code_eq] at hcode ⊢
  simp only [Condition.rightFlat, Bool.and_eq_true] at hflat
  simp only [Condition.accesses, List.map_append] at hpermits
  obtain ⟨t, hrunl, hal, ht, -⟩ := Expr.runs_value hdistinct hscratch hflat.1 hpermits.left
    hcode.left.left.left.left hs
  have hstoresl : stores t [onByte .sta comparedByte] = [comparedCell] := rfl
  have hput : Runs program writable _ ⟨_, t.store comparedCell t.a⟩ :=
    Runs.straight hcode.left.left.left.right rfl
      (by simp [hstoresl, hscratch comparedCell (by simp [scratch])])
  have ht' : Agrees (t.store comparedCell t.a).memory m := ht.store (by simp [scratch]) _
  obtain ⟨u, hrunr, har, hu, hkept⟩ := Expr.runs_value hdistinct hscratch hflat.2 hpermits.right
    hcode.left.left.right ht'
  have hstoresr : stores u [onByte .sta rightByte, onByte .lda comparedByte,
      onByte .cmp rightByte] = [rightCell] := rfl
  let w := u.store rightCell u.a
  let v := (w.load (w.memory comparedCell)).compare (w.memory rightCell)
  have hcompare : Runs program writable _ ⟨_, v⟩ :=
    Runs.straight hcode.left.right rfl
      (by simp [hstoresr, hscratch rightCell (by simp [scratch])])
  have hv : Agrees v.memory m := hu.store (by simp [scratch]) _
  have hx : w.memory comparedCell = c.left.value m := by
    simp [w, hkept, hal]
  have hy : w.memory rightCell = c.right.value m := by
    simp [w, har]
  obtain ⟨passed, hpassed⟩ := c.op.crosses writable hdistinct hcode.right htarget (s := v)
    (x := c.left.value m) (y := c.right.value m)
    (by simp [v, State.compare, hx, hy]) (by simp [v, State.compare, hx, hy])
  have hrunop : Runs program writable ⟨_, v⟩ ⟨if c.holds m then _ else target, v⟩ := hpassed.runs
  refine ⟨v, ((((hrunl.append hput).append hrunr).append hcompare).trans ?_), hv⟩
  rw [Nat.add_assoc, ← List.length_append] at hrunop
  exact hrunop

theorem Flow.code_seq (first second : Flow) :
    ((seq first second).code function n).1 =
      (first.code function n).1 ++ (second.code function (first.code function n).2).1 := rfl

theorem CodeAt.branch {c : Condition} {yes no : Flow}
    (h : CodeAt program line ((Flow.branch c yes no).code function n).1) :
    let test := c.code (n + 2) (generatedLabel "CIFELSE" (n + 1))
    let x := yes.code function test.2
    let y := no.code function x.2
    CodeAt program line test.1 ∧
      CodeAt program (line + test.1.length) x.1 ∧
      CodeAt program (line + test.1.length + x.1.length)
        [toLabel .jmp (generatedLabel "CIFEND" n), .label (generatedLabel "CIFELSE" (n + 1))] ∧
      CodeAt program (line + test.1.length + x.1.length + 2) y.1 ∧
      CodeAt program (line + test.1.length + x.1.length + 2 + y.1.length)
        [.label (generatedLabel "CIFEND" n)] := by
  intro test x y
  have h : CodeAt program line (test.1 ++ x.1 ++ [toLabel .jmp (generatedLabel "CIFEND" n),
      .label (generatedLabel "CIFELSE" (n + 1))] ++ y.1 ++ [.label (generatedLabel "CIFEND" n)]) := h
  have hmiddle := h.left.left.right
  have hno := h.left.right
  have hend := h.right
  simp only [List.length_append, ← Nat.add_assoc] at hmiddle hno hend
  exact ⟨h.left.left.left.left, h.left.left.left.right, hmiddle, hno, hend⟩

theorem Flow.length_branch (c : Condition) (yes no : Flow) :
    let test := c.code (n + 2) (generatedLabel "CIFELSE" (n + 1))
    let x := yes.code function test.2
    let y := no.code function x.2
    line + ((branch c yes no).code function n).1.length =
      line + test.1.length + x.1.length + 2 + y.1.length + 1 := by
  simp only [Flow.code, List.length_append, ← Nat.add_assoc]
  rfl

theorem CodeAt.loop {kind : LoopKind} {c : Option Condition} {body : Flow}
    (h : CodeAt program line ((Flow.loop kind c body).code function n).1) :
    let test := testCode (n + 2) (kind.endLabel (n + 1)) c
    let x := body.code function test.2
    CodeAt program line [.label (kind.startLabel n)] ∧
      CodeAt program (line + 1) test.1 ∧
      CodeAt program (line + 1 + test.1.length) x.1 ∧
      CodeAt program (line + 1 + test.1.length + x.1.length)
        [toLabel .jmp (kind.startLabel n), .label (kind.endLabel (n + 1))] := by
  intro test x
  have h : CodeAt program line ([.label (kind.startLabel n)] ++ test.1 ++ x.1 ++
      [toLabel .jmp (kind.startLabel n), .label (kind.endLabel (n + 1))]) := h
  have hbody := h.left.right
  have htail := h.right
  simp only [List.length_append, ← Nat.add_assoc] at hbody htail
  exact ⟨h.left.left.left, h.left.left.right, hbody, htail⟩

theorem Flow.length_loop (kind : LoopKind) (c : Option Condition) (body : Flow) :
    let test := testCode (n + 2) (kind.endLabel (n + 1)) c
    let x := body.code function test.2
    line + ((loop kind c body).code function n).1.length =
      line + 1 + test.1.length + x.1.length + 2 := by
  simp only [Flow.code, List.length_append, ← Nat.add_assoc]
  rfl

theorem runs_test (hdistinct : (labelsOf program).Nodup) (hscratch : ∀ b ∈ scratch, writable b)
    {c : Option Condition} (hflat : c.all (·.rightFlat) = true)
    (hpermits : Permits writable (accesses? c m)) {otherwise : String} {target : Nat}
    (hcode : CodeAt program line (testCode n otherwise c).1)
    (htarget : program[target]? = some (.label otherwise)) (hs : Agrees s.memory m) :
    ∃ t : State, Runs program writable ⟨line, s⟩
        ⟨if holds? c m then line + (testCode n otherwise c).1.length else target, t⟩ ∧
      Agrees t.memory m := by
  cases c with
  | none => exact ⟨s, .refl, hs⟩
  | some c => exact Condition.runs hdistinct hscratch hflat hpermits hcode htarget hs

/-- A run that goes on after the code, unless it has left the function. -/
theorem Arrives.further {ending : Ending} {after after' line' : Nat} {t : State}
    (h : Arrives program function after ending line')
    (hnext : Runs program writable ⟨after, t⟩ ⟨after', t⟩) :
    ∃ line'', Runs program writable ⟨line', t⟩ ⟨line'', t⟩ ∧
      Arrives program function after' ending line'' := by
  cases ending with
  | next =>
    obtain rfl : line' = after := h
    exact ⟨after', hnext, rfl⟩
  | left => exact ⟨line', .refl, h⟩

/-- The code of structured statements follows every run of them that ends. -/
theorem Flow.runs (hdistinct : (labelsOf program).Nodup) (hscratch : ∀ b ∈ scratch, writable b)
    {flow : Flow} {e : Effect} (hexec : Exec flow m e) (hflat : flow.rightFlat = true)
    (hpermits : Permits writable e.accesses)
    (hcode : CodeAt program line (flow.code function n).1) (hs : Agrees s.memory m) :
    ∃ (line' : Nat) (t : State), Runs program writable ⟨line, s⟩ ⟨line', t⟩ ∧
      Agrees t.memory e.memory ∧
      Arrives program function (line + (flow.code function n).1.length) e.ending line' := by
  induction hexec generalizing n line s with
  | skip m => exact ⟨line, s, .refl, hs, rfl⟩
  | act h => exact Statement.runs hdistinct hscratch h hflat hpermits hcode hs
  | seq h h' ih ih' =>
    rw [Flow.code_seq] at hcode ⊢
    simp only [Flow.rightFlat, Bool.and_eq_true] at hflat
    obtain ⟨_, t, hrun, ht, rfl⟩ := ih hflat.1 hpermits.left hcode.left hs
    obtain ⟨line', u, hrun', hu, harrives⟩ := ih' hflat.2 hpermits.right hcode.right ht
    refine ⟨line', u, hrun.trans hrun', hu, ?_⟩
    rwa [List.length_append, ← Nat.add_assoc]
  | seqLeft h ih =>
    rw [Flow.code_seq] at hcode ⊢
    simp only [Flow.rightFlat, Bool.and_eq_true] at hflat
    exact ih hflat.1 hpermits hcode.left hs
  | @yes c yes no m e hc h ih =>
    obtain ⟨htest, hyes, hmiddle, hno, hend⟩ := hcode.branch
    simp only [Flow.rightFlat, Bool.and_eq_true] at hflat
    obtain ⟨t, hrun, ht⟩ := Condition.runs hdistinct hscratch hflat.1.1 hpermits.left htest
      hmiddle.tail.head hs
    rw [if_pos hc] at hrun
    obtain ⟨line', u, hrun', hu, harrives⟩ := ih hflat.1.2 hpermits.right hyes ht
    have hover : Runs program writable ⟨_, u⟩ ⟨_, u⟩ :=
      (Runs.jump hdistinct hmiddle.head hend.head).trans (Runs.label hend.head)
    obtain ⟨line'', hrun'', harrives'⟩ := harrives.further hover
    refine ⟨line'', u, (hrun.trans hrun').trans hrun'', hu, ?_⟩
    rwa [Flow.length_branch]
  | @no c yes no m e hc h ih =>
    obtain ⟨htest, hyes, hmiddle, hno, hend⟩ := hcode.branch
    simp only [Flow.rightFlat, Bool.and_eq_true] at hflat
    obtain ⟨t, hrun, ht⟩ := Condition.runs hdistinct hscratch hflat.1.1 hpermits.left htest
      hmiddle.tail.head hs
    rw [if_neg (by simp [hc])] at hrun
    obtain ⟨line', u, hrun', hu, harrives⟩ := ih hflat.2 hpermits.right hno ht
    have hover : Runs program writable ⟨_, u⟩ ⟨_, u⟩ := Runs.label hend.head
    obtain ⟨line'', hrun'', harrives'⟩ := harrives.further hover
    refine ⟨line'', u, ((hrun.trans (Runs.label hmiddle.tail.head)).trans hrun').trans hrun'',
      hu, ?_⟩
    rwa [Flow.length_branch]
  | @exit kind c body m hc =>
    obtain ⟨hstart, htest, hbody, htail⟩ := hcode.loop
    simp only [Flow.rightFlat, Bool.and_eq_true] at hflat
    obtain ⟨t, hrun, ht⟩ := runs_test hdistinct hscratch hflat.1 hpermits htest
      htail.tail.head hs
    rw [if_neg (by simp [hc])] at hrun
    refine ⟨_, t, ((Runs.label hstart.head).trans hrun).trans (Runs.label htail.tail.head), ht, ?_⟩
    rw [Flow.length_loop]
    rfl
  | @round kind c body m m' log e hc h h' ih ih' =>
    obtain ⟨hstart, htest, hbody, htail⟩ := hcode.loop
    have hflat' := hflat
    simp only [Flow.rightFlat, Bool.and_eq_true] at hflat'
    obtain ⟨t, hrun, ht⟩ := runs_test hdistinct hscratch hflat'.1 hpermits.left.left htest
      htail.tail.head hs
    rw [if_pos hc] at hrun
    obtain ⟨_, u, hrun', hu, rfl⟩ := ih hflat'.2 hpermits.left.right hbody ht
    -- the jump leads back to the start of the same code
    have hback : Runs program writable ⟨_, u⟩ ⟨line, u⟩ :=
      Runs.jump hdistinct htail.head hstart.head
    obtain ⟨line', v, hrun'', hv, harrives⟩ := ih' hflat hpermits.right hcode hu
    exact ⟨line', v, ((((Runs.label hstart.head).trans hrun).trans hrun').trans hback).trans hrun'',
      hv, harrives⟩
  | @roundLeft kind c body m m' log hc h ih =>
    obtain ⟨hstart, htest, hbody, htail⟩ := hcode.loop
    simp only [Flow.rightFlat, Bool.and_eq_true] at hflat
    obtain ⟨t, hrun, ht⟩ := runs_test hdistinct hscratch hflat.1 hpermits.left htest
      htail.tail.head hs
    rw [if_pos hc] at hrun
    obtain ⟨line', u, hrun', hu, harrives⟩ := ih hflat.2 hpermits.right hbody ht
    exact ⟨line', u, ((Runs.label hstart.head).trans hrun).trans hrun', hu, harrives⟩

end

end Toolchain6502.C
