import Toolchain6502.Proofs.C.CodeLayout
import Toolchain6502.Proofs.C.Names

namespace Toolchain6502

def Number.within (bound : Nat) (x : Number) : Bool :=
  x.int?.any fun n => 0 ≤ n && n ≤ Int.ofNat bound

theorem Number.within_iff {bound : Nat} {x : Number} :
    x.within bound = true ↔ ∃ n : Int, x.int? = some n ∧ 0 ≤ n ∧ n ≤ bound := by
  unfold within
  cases x.int? <;> simp

theorem Number.toInt_of_int? {x : Number} {n : Int} (h : x.int? = some n) : x.toInt = n := by
  cases x <;> simp_all [int?, toInt]

theorem Number.toInt_of_within {bound : Nat} {x : Number} (h : x.within bound = true) :
    0 ≤ x.toInt ∧ x.toInt ≤ bound := by
  obtain ⟨n, hn, hrange⟩ := within_iff.mp h
  rwa [toInt_of_int? hn]

namespace C

open Cpu

def isByte (address : Int) : Bool := 0 ≤ address && address ≤ 0xFF

def Term.sized : Term → Bool
  | immediate value => value.within 0xFF
  | byte address => isByte address

def Address.sized (a : Address) : Bool := a.base.within 0xFFFF && a.offset.all Term.sized

def Expr.sized : Expr → Bool
  | term t => t.sized
  | memory a => a.sized
  | complement e => e.sized
  | binary _ left right => left.sized && right.sized

def Condition.sized (c : Condition) : Bool := c.left.sized && c.right.sized

def Statement.sized : Statement → Bool
  | leave | call _ => true
  | increment address | decrement address => isByte address
  | assign address value => isByte address && value.sized
  | store address value => address.sized && value.sized

def Flow.sized : Flow → Bool
  | skip => true
  | act s => s.sized
  | seq first second => first.sized && second.sized
  | branch c yes no => c.sized && yes.sized && no.sized
  | loop _ c body => c.all Condition.sized && body.sized

def Fitting (code : Code) : Prop := code.all CodeLine.fits = true

@[simp]
theorem fitting_append {first second : Code} :
    Fitting (first ++ second) ↔ Fitting first ∧ Fitting second := by
  simp [Fitting]

@[simp]
theorem fitting_cons {l : CodeLine} {code : Code} :
    Fitting (l :: code) ↔ l.fits = true ∧ Fitting code := by
  simp [Fitting]

theorem fitting_nil : Fitting [] := rfl

theorem fits_onByte {m : Mnemonic} (hm : m.supports .zeroPage = true) {address : Int}
    (h : isByte address = true) : (onByte m address).fits = true :=
  Bool.and_eq_true_iff.mpr ⟨hm, h⟩

theorem Term.load_fitting {t : Term} (ht : t.sized = true) : Fitting t.load := by
  cases t with
  | immediate value =>
    have hrange : isByte value.toInt = true := by
      simpa [isByte] using Number.toInt_of_within (x := value) ht
    exact fitting_cons.mpr ⟨hrange, fitting_nil⟩
  | byte address => exact fitting_cons.mpr ⟨fits_onByte rfl ht, fitting_nil⟩

theorem Address.access_fitting {a : Address} (ha : a.sized = true) {m : Mnemonic}
    (hm : m = .lda ∨ m = .sta) : Fitting (a.access m) := by
  obtain ⟨hbase, hoffset⟩ := Bool.and_eq_true_iff.mp ha
  have hrange := Number.toInt_of_within hbase
  have habsolute : m.supports .absolute = true ∧ m.supports .absoluteY = true := by
    rcases hm with rfl | rfl <;> decide
  have hline {address : Int} (hlow : 0 ≤ address) (hhigh : address ≤ 0xFFFF) :
      CodeOperand.suits m (.absolute address) = true := by
    simp [CodeOperand.suits, habsolute, hlow, hhigh]
  have hindexed : CodeOperand.suits m (.absoluteY a.base.toInt) = true := by
    simpa [CodeOperand.suits, habsolute] using hrange
  unfold access
  split
  · exact fitting_cons.mpr ⟨hline hrange.1 hrange.2, fitting_nil⟩
  · exact fitting_cons.mpr ⟨hline (by omega) (by omega), fitting_nil⟩
  · rename_i address heq
    have hbyte : isByte address = true := by simpa [heq, Term.sized] using hoffset
    exact fitting_cons.mpr ⟨fits_onByte rfl hbyte, fitting_cons.mpr ⟨hindexed, fitting_nil⟩⟩

theorem BinOp.code_fitting (op : BinOp) (n : Nat) : Fitting (op.code n).1 := by
  cases op <;> rfl

theorem Expr.code_fitting {e : Expr} (he : e.sized = true) (n : Nat) : Fitting (e.code n).1 := by
  induction e generalizing n with
  | term t => exact Term.load_fitting he
  | memory a => exact Address.access_fitting he (.inl rfl)
  | complement e ih =>
    simp only [code, fitting_append]
    exact ⟨ih he n, rfl⟩
  | binary op left right ihl ihr =>
    obtain ⟨hleft, hright⟩ := Bool.and_eq_true_iff.mp he
    simp only [code, fitting_append]
    exact ⟨⟨⟨⟨ihl hleft n, rfl⟩, ihr hright _⟩, rfl⟩, op.code_fitting _⟩

theorem Comparison.code_fitting (op : Comparison) (n : Nat) (otherwise : String) :
    Fitting (op.code n otherwise).1 := by
  cases op <;> rfl

theorem Condition.code_fitting {c : Condition} (hc : c.sized = true) (n : Nat)
    (otherwise : String) : Fitting (c.code n otherwise).1 := by
  obtain ⟨hleft, hright⟩ := Bool.and_eq_true_iff.mp hc
  simp only [code, fitting_append]
  exact ⟨⟨⟨⟨Expr.code_fitting hleft n, rfl⟩, Expr.code_fitting hright _⟩, rfl⟩,
    c.op.code_fitting _ otherwise⟩

theorem leaveCode_fits (function : String) : (leaveCode function).fits = true := by
  unfold leaveCode
  split <;> rfl

theorem Statement.code_fitting {s : Statement} (hs : s.sized = true) (function : String)
    (n : Nat) : Fitting (s.code function n).1 := by
  cases s with
  | leave => exact fitting_cons.mpr ⟨leaveCode_fits function, fitting_nil⟩
  | call name => rfl
  | increment address => exact fitting_cons.mpr ⟨fits_onByte rfl hs, fitting_nil⟩
  | decrement address => exact fitting_cons.mpr ⟨fits_onByte rfl hs, fitting_nil⟩
  | assign address value =>
    obtain ⟨hbyte, hvalue⟩ := Bool.and_eq_true_iff.mp hs
    simp only [code, fitting_append]
    exact ⟨Expr.code_fitting hvalue n, fitting_cons.mpr ⟨fits_onByte rfl hbyte, fitting_nil⟩⟩
  | store address value =>
    obtain ⟨haddress, hvalue⟩ := Bool.and_eq_true_iff.mp hs
    simp only [code, fitting_append]
    exact ⟨Expr.code_fitting hvalue n, Address.access_fitting haddress (.inr rfl)⟩

theorem testCode_fitting {c : Option Condition} (hc : c.all Condition.sized = true) (n : Nat)
    (otherwise : String) : Fitting (testCode n otherwise c).1 := by
  cases c with
  | none => rfl
  | some c => exact Condition.code_fitting hc n otherwise

theorem Flow.code_fitting {flow : Flow} (hflow : flow.sized = true) (function : String)
    (n : Nat) : Fitting (flow.code function n).1 := by
  induction flow generalizing n with
  | skip => rfl
  | act s => exact Statement.code_fitting hflow function n
  | seq first second ih ih' =>
    obtain ⟨hfirst, hsecond⟩ := Bool.and_eq_true_iff.mp hflow
    simp only [code, fitting_append]
    exact ⟨ih hfirst n, ih' hsecond _⟩
  | branch c yes no ih ih' =>
    simp only [sized, Bool.and_eq_true] at hflow
    simp only [code, fitting_append]
    exact ⟨⟨⟨⟨Condition.code_fitting hflow.1.1 _ _, ih hflow.1.2 _⟩, rfl⟩, ih' hflow.2 _⟩, rfl⟩
  | loop kind c body ih =>
    obtain ⟨hc, hbody⟩ := Bool.and_eq_true_iff.mp hflow
    simp only [code, fitting_append]
    exact ⟨⟨⟨rfl, testCode_fitting hc _ _⟩, ih hbody _⟩, rfl⟩

theorem ofFunctions_fitting {fs : List Function} (hfs : ∀ f ∈ fs, f.body.sized = true) :
    Fitting (Progress.ofFunctions fs).code := by
  induction fs using List.reverseRecOn with
  | nil => rfl
  | append_singleton fs f ih =>
    rw [List.forall_mem_append] at hfs
    rw [Progress.ofFunctions_concat]
    simp only [Progress.add, Function.code, fitting_append]
    refine ⟨ih hfs.1, ⟨rfl, Flow.code_fitting (hfs.2 f (by simp)) _ _⟩, ?_⟩
    exact fitting_cons.mpr ⟨leaveCode_fits f.name, rfl⟩

theorem mem_of_lookup {table : NameTable α} {name : String} {value : α}
    (h : table.lookup name = some value) : (name, value) ∈ table := by
  obtain ⟨before, after, rfl, -⟩ := List.lookup_eq_some_iff.mp h
  simp

theorem readHex_range {token digits : List Char} {n : Int} (h : readHex token digits = .ok n) :
    0 ≤ n ∧ n ≤ 0xFFFF := by
  simp only [readHex] at h
  split at h
  · rename_i hdigits
    simp only [Bool.and_eq_true, decide_eq_true_eq] at hdigits
    obtain rfl := Except.ok.inj h
    omega
  · simp [fail] at h

theorem readDecimal_range {token : List Char} {n : Int} (h : readDecimal token = .ok n) :
    0 ≤ n ∧ n ≤ 0xFFFF := by
  unfold readDecimal at h
  split at h
  · obtain ⟨value, -, h⟩ := bind_eq_ok.mp h
    split at h
    · obtain rfl := Except.ok.inj h
      omega
    · simp [fail] at h
  · simp [fail] at h

theorem readLiteral_range {token : List Char} {n : Int} (h : readLiteral token = .ok n) :
    0 ≤ n ∧ n ≤ 0xFFFF := by
  unfold readLiteral at h
  split at h
  · exact readHex_range h
  · exact readHex_range h
  · exact readDecimal_range h

theorem readLevels_all {P : Expr → Prop}
    (hbinary : ∀ op left right, P left → P right → P (.binary op left right)) {operand : Reader}
    (hoperand : ∀ ts e rest, operand ts = .ok (e, rest) → P e) :
    ∀ ts e rest, readLevels operand ts = .ok (e, rest) → P e := by
  -- One level joins operands of the next tighter one, from the left.
  have hmore {tighter : Reader} (htighter : ∀ ts e rest, tighter ts = .ok (e, rest) → P e)
      {ops : List BinOp} {n : Nat} {left : Expr} (hleft : P left) {ts : List Token} {e : Expr}
      {rest : List Token} (h : readMore tighter ops n left ts = .ok (e, rest)) : P e := by
    induction n generalizing left ts with
    | zero =>
      obtain ⟨rfl, -⟩ := Prod.mk.inj (Except.ok.inj h)
      exact hleft
    | succ n ih =>
      unfold readMore at h
      split at h
      · split at h
        · obtain ⟨⟨right, after⟩, hright, h⟩ := bind_eq_ok.mp h
          exact ih (hbinary _ _ _ hleft (htighter _ _ _ hright)) h
        · obtain ⟨rfl, -⟩ := Prod.mk.inj (Except.ok.inj h)
          exact hleft
      · obtain ⟨rfl, -⟩ := Prod.mk.inj (Except.ok.inj h)
        exact hleft
  unfold readLevels
  induction levels with
  | nil => exact hoperand
  | cons ops looser ih =>
    intro ts e rest h
    obtain ⟨⟨left, after⟩, hleft, h⟩ := bind_eq_ok.mp h
    exact hmore ih (ih _ _ _ hleft) h

/-- The constants are words, and no variable is placed below page zero. -/
structure Options.InRange (options : Options) : Prop where
  constants : ∀ e ∈ options.constants, e.2.within 0xFFFF = true
  base : 0 ≤ options.zeroPageBase

section

variable {options : Options} (hoptions : options.InRange)

include hoptions

theorem Options.Places.isByte {address : Int} (h : options.Places address) :
    C.isByte address = true := by
  have hbase := hoptions.base
  unfold Options.Places zeroPageLimit at h
  simp only [C.isByte, Bool.and_eq_true, decide_eq_true_eq]
  omega

variable {scope : Scope} (hscope : options.Admits scope)

include hscope

theorem Scope.isByte_of_address? {name : String} {address : Int}
    (h : scope.address? name = some address) : C.isByte address = true :=
  (hscope.addresses _ (mem_of_lookup h)).isByte hoptions

theorem readWord_within {token : List Char} {value : Number}
    (h : readWord scope token = .ok value) : value.within 0xFFFF = true := by
  simp only [readWord] at h
  split at h
  · simp [fail] at h
  · rename_i hconstant
    obtain rfl := Except.ok.inj h
    rw [Scope.constant?, hscope.constants] at hconstant
    exact hoptions.constants _ (mem_of_lookup hconstant)
  · cases hliteral : readLiteral token with
    | error e => simp [hliteral, Except.map] at h
    | ok n =>
      obtain rfl : .whole n = value := by simpa [hliteral, Except.map] using h
      exact Number.within_iff.mpr ⟨n, rfl, readLiteral_range hliteral⟩

theorem readTerm_sized {token : List Char} {t : Term} (h : readTerm scope token = .ok t) :
    t.sized = true := by
  unfold readTerm at h
  split at h
  · rename_i address haddress
    obtain rfl := Except.ok.inj h
    exact Scope.isByte_of_address? hoptions hscope haddress
  · obtain ⟨value, hvalue, h⟩ := bind_eq_ok.mp h
    obtain ⟨n, hn, hlow, -⟩ := Number.within_iff.mp (readWord_within hoptions hscope hvalue)
    split at h
    · simp [fail] at h
    · rename_i hexceeds
      obtain rfl := Except.ok.inj h
      refine Number.within_iff.mpr ⟨n, hn, hlow, ?_⟩
      cases value <;> simp_all [Number.exceeds, Number.int?, Number.toInt]

theorem readAddress_sized {text : List Char} {a : Address} (h : readAddress scope text = .ok a) :
    a.sized = true := by
  unfold readAddress at h
  split at h
  · obtain ⟨base, hbase, h⟩ := bind_eq_ok.mp h
    obtain rfl := Except.ok.inj h
    simp [Address.sized, readWord_within hoptions hscope hbase]
  · obtain ⟨base, hbase, h⟩ := bind_eq_ok.mp h
    obtain ⟨offset, hoffset, h⟩ := bind_eq_ok.mp h
    obtain rfl := Except.ok.inj h
    simp [Address.sized, readWord_within hoptions hscope hbase,
      readTerm_sized hoptions hscope hoffset]
  · simp [fail] at h

theorem readAtom_sized {text : List Char} {e : Expr} (h : readAtom scope text = .ok e) :
    e.sized = true := by
  obtain ⟨access, -, h⟩ := bind_eq_ok.mp h
  cases access with
  | some address =>
    obtain ⟨a, ha, h⟩ := bind_eq_ok.mp h
    obtain rfl := Except.ok.inj h
    exact readAddress_sized hoptions hscope ha
  | none =>
    obtain ⟨t, ht, h⟩ := bind_eq_ok.mp h
    obtain rfl := Except.ok.inj h
    exact readTerm_sized hoptions hscope ht

theorem readOperand_sized (depth : Nat) :
    ∀ ts e rest, readOperand scope depth ts = .ok (e, rest) → e.sized = true := by
  have hbinary (op : BinOp) (left right : Expr) (hleft : left.sized = true)
      (hright : right.sized = true) : (Expr.binary op left right).sized = true := by
    simp [Expr.sized, hleft, hright]
  induction depth with
  | zero => simp [readOperand, fail]
  | succ depth ih =>
    intro ts e rest h
    cases ts with
    | nil => simp [readOperand, fail] at h
    | cons t ts =>
    cases t with
    | closing => simp [readOperand, fail] at h
    | complement =>
      obtain ⟨⟨inner, after⟩, hinner, h⟩ := bind_eq_ok.mp h
      obtain ⟨rfl, -⟩ := Prod.mk.inj (Except.ok.inj h)
      have hsized : inner.sized = true := ih _ _ _ hinner
      exact hsized
    | opening =>
      obtain ⟨⟨inner, after⟩, hinner, h⟩ := bind_eq_ok.mp h
      have hsized := readLevels_all hbinary ih _ _ _ hinner
      simp only at h
      split at h
      · obtain ⟨rfl, -⟩ := Prod.mk.inj (Except.ok.inj h)
        exact hsized
      · simp [fail] at h
    | op _ | atom _ =>
      obtain ⟨atom, hatom, h⟩ := bind_eq_ok.mp h
      obtain ⟨rfl, -⟩ := Prod.mk.inj (Except.ok.inj h)
      exact readAtom_sized hoptions hscope hatom

theorem readExpression_sized {text : List Char} {e : Expr}
    (h : readExpression scope text = .ok e) : e.sized = true := by
  obtain ⟨ts, -, h⟩ := bind_eq_ok.mp (inContext_eq_ok h)
  obtain ⟨⟨e', rest⟩, he, h⟩ := bind_eq_ok.mp h
  have hsized := readLevels_all (fun op left right hleft hright => by
    simp [Expr.sized, hleft, hright]) (readOperand_sized hoptions hscope _) _ _ _ he
  cases rest with
  | nil =>
    obtain rfl := Except.ok.inj h
    exact hsized
  | cons t rest => simp [fail] at h

theorem readCondition_sized {text : List Char} {c : Condition}
    (h : readCondition scope text = .ok c) : c.sized = true := by
  obtain ⟨⟨left, op, right⟩, -, h⟩ := bind_eq_ok.mp (inContext_eq_ok h)
  obtain ⟨l, hl, h⟩ := bind_eq_ok.mp h
  obtain ⟨r, hr, h⟩ := bind_eq_ok.mp h
  obtain rfl := Except.ok.inj h
  simp [Condition.sized, readExpression_sized hoptions hscope hl,
    readExpression_sized hoptions hscope hr]

theorem findVariable_isByte {name : List Char} {address : Int}
    (h : findVariable scope name = .ok address) : C.isByte address = true := by
  simp only [findVariable] at h
  split at h
  · rename_i haddress
    obtain rfl := Except.ok.inj h
    exact Scope.isByte_of_address? hoptions hscope haddress
  · simp [fail] at h

theorem readAssignment_sized {left right : List Char} {s : Statement}
    (h : readAssignment scope left right = .ok s) : s.sized = true := by
  obtain ⟨access, -, h⟩ := bind_eq_ok.mp h
  cases access with
  | some address =>
    obtain ⟨a, ha, h⟩ := bind_eq_ok.mp h
    obtain ⟨value, hvalue, h⟩ := bind_eq_ok.mp h
    obtain rfl := Except.ok.inj h
    simp [Statement.sized, readAddress_sized hoptions hscope (inContext_eq_ok ha),
      readExpression_sized hoptions hscope hvalue]
  | none =>
    obtain ⟨_, -, h⟩ := bind_eq_ok.mp h
    obtain ⟨a, ha, h⟩ := bind_eq_ok.mp h
    obtain ⟨value, hvalue, h⟩ := bind_eq_ok.mp h
    obtain rfl := Except.ok.inj h
    -- A value that is an access alone is read as an address and not as an expression.
    have hsized : value.sized = true := by
      obtain ⟨access, -, hvalue⟩ := bind_eq_ok.mp hvalue
      cases access with
      | some address =>
        obtain ⟨b, hb, hvalue⟩ := bind_eq_ok.mp hvalue
        obtain rfl := Except.ok.inj hvalue
        exact readAddress_sized hoptions hscope (inContext_eq_ok hb)
      | none => exact readExpression_sized hoptions hscope hvalue
    simp [Statement.sized, findVariable_isByte hoptions hscope ha, hsized]

theorem readStatement_sized {text : List Char} {s : Statement}
    (h : readStatement scope text = .ok s) : s.sized = true := by
  unfold readStatement at h
  simp only [pure_eq_ok] at h
  split at h
  · obtain rfl := Except.ok.inj h
    rfl
  split at h
  · obtain ⟨_, -, h⟩ := bind_eq_ok.mp h
    obtain rfl := Except.ok.inj h
    rfl
  split at h
  · obtain ⟨a, ha, h⟩ := bind_eq_ok.mp h
    obtain rfl := Except.ok.inj h
    exact findVariable_isByte hoptions hscope ha
  split at h
  · obtain ⟨a, ha, h⟩ := bind_eq_ok.mp h
    obtain rfl := Except.ok.inj h
    exact findVariable_isByte hoptions hscope ha
  split at h
  · simp [fail] at h
  split at h
  · simp [fail] at h
  · exact readAssignment_sized hoptions hscope h

end

section

variable {options : Options} (hoptions : options.InRange)

include hoptions

theorem Statement.ReadUnder.sized {s : Statement} (h : s.ReadUnder options) :
    s.sized = true := by
  cases h with
  | text hscope h => exact readStatement_sized hoptions hscope h
  | initial hscope haddress h =>
    simp [Statement.sized, haddress.isByte hoptions, readExpression_sized hoptions hscope h]

theorem Condition.ReadUnder.sized {c : Condition} (h : c.ReadUnder options) :
    c.sized = true := by
  obtain ⟨scope, text, hscope, h⟩ := h
  exact readCondition_sized hoptions hscope h

theorem Flow.ReadUnder.sized {flow : Flow} (h : flow.ReadUnder options) : flow.sized = true := by
  induction flow with
  | skip => rfl
  | act s => exact Statement.ReadUnder.sized hoptions h
  | seq first second ih ih' => simp [Flow.sized, ih h.1, ih' h.2]
  | branch c yes no ih ih' =>
    simp [Flow.sized, Condition.ReadUnder.sized hoptions h.1, ih h.2.1, ih' h.2.2]
  | loop kind c body ih =>
    have hc : c.all Condition.sized = true := by
      cases c with
      | none => rfl
      | some c => exact Condition.ReadUnder.sized hoptions (h.1 c rfl)
    simp [Flow.sized, hc, ih h.2]

/-- The code of a source fits its forms. -/
theorem readFunctions_fitting {current : List String} {files : List SourceFile}
    {functions : List Function} (h : readFunctions current options files = .ok functions) :
    ∀ l ∈ (Progress.ofFunctions functions).code, l.fits = true := by
  have hfitting : Fitting (Progress.ofFunctions functions).code := by
    apply ofFunctions_fitting
    intro f hf
    exact (readFunctions_readUnder h f hf).body.sized hoptions
  exact List.all_eq_true.mp hfitting

end

end C

end Toolchain6502
