import Mathlib.Algebra.Group.Int.Defs
import Toolchain6502.Proofs.Assembly.LoadedImage

namespace Toolchain6502.Assembly

open Cpu

structure Decoded where
  mnemonic : Mnemonic
  mode : Mode
  operand : Nat
deriving DecidableEq, Repr

def bytesNumber : List UInt8 → Nat
  | [] => 0
  | b :: rest => b.toNat + 0x100 * bytesNumber rest

/-- The instructions in some bytes. There are none if an opcode is not in the table, or if the
last operand is cut short. -/
def disassemble : List UInt8 → Option (List Decoded)
  | [] => some []
  | b :: rest =>
    match decode? b.toBitVec with
    | none => none
    | some (m, mode) =>
      if mode.operandSize ≤ rest.length then
        (disassemble (rest.drop mode.operandSize)).map
          (⟨m, mode, bytesNumber (rest.take mode.operandSize)⟩ :: ·)
      else none
termination_by bytes => bytes.length
decreasing_by
  rw [List.length_drop]
  exact Nat.lt_succ_of_le (Nat.sub_le _ _)

theorem bytesNumber_littleEndian (size : Nat) (n : Int) :
    bytesNumber (littleEndian size n) = n % 0x100 ^ size := by
  induction size generalizing n with
  | zero => simp [littleEndian, bytesNumber]
  | succ size ih =>
    have hbyte : ((byteOf n).toNat : Int) = n % 0x100 := by
      simp only [byteOf, UInt8.toNat_ofNat']
      omega
    have hsplit : n % (0x100 * 0x100 ^ size) = n % 0x100 + 0x100 * (n / 0x100 % 0x100 ^ size) := by
      rw [Int.emod_def, Int.emod_def n, Int.emod_def (n / 0x100), Int.ediv_ediv_of_nonneg (by omega),
        Int.mul_sub, Int.mul_assoc]
      omega
    rw [Int.pow_succ, Int.mul_comm, hsplit, ← ih, ← hbyte]
    simp [littleEndian, bytesNumber]

/-- One step of the walk takes one instruction, whatever follows it. -/
theorem disassemble_instruction {m : Mnemonic} {opcode : Opcode} (hopcode : opcode ∈ m.opcodes)
    {operand : List UInt8} (hlength : operand.length = opcode.mode.operandSize)
    (rest : List UInt8) :
    disassemble (opcode.code :: (operand ++ rest)) =
      (disassemble rest).map (⟨m, opcode.mode, bytesNumber operand⟩ :: ·) := by
  rw [disassemble, decode?_code hopcode]
  simp [← hlength]

/-- What an instruction statement leaves in an image: its mnemonic, the mode chosen for its
operand, and the low bytes of the number that it carries. -/
def Statement.decoded? (t : Symbols) (address : Nat) (s : Statement) : Option Decoded :=
  match s.content with
  | .instruction m o =>
    let mode := encodingMode m o
    some ⟨m, mode, (o.carried t (address + s.size) mode % 0x100 ^ mode.operandSize).toNat⟩
  | _ => none

theorem mem_opcodes_of_encoding? {m : Mnemonic} {o : Operand} {opcode : Opcode}
    (h : encoding? m o = some opcode) : opcode ∈ m.opcodes :=
  List.mem_of_find?_eq_some h

theorem disassemble_statement {t : Symbols} {address : Nat} {s : Statement}
    (h : s.Encodes t address) (rest : List UInt8) :
    disassemble (s.bytes t address ++ rest) =
      (disassemble rest).map ((s.decoded? t address).toList ++ ·) := by
  unfold Statement.Encodes at h
  unfold Statement.bytes Statement.decoded? Statement.size
  match hc : s.content with
  | .label name => simp
  | .constant name value => simp
  | .instruction m o =>
    simp only [hc] at h
    obtain ⟨opcode, hencoding, -⟩ := h
    have hmode : opcode.mode = encodingMode m o := encoding?_mode hencoding
    simp only [hencoding, Option.map_some, Option.getD_some, List.cons_append, ← hmode,
      Option.toList_some]
    rw [disassemble_instruction (mem_opcodes_of_encoding? hencoding) (littleEndian_length _ _)]
    rw [← bytesNumber_littleEndian, Int.toNat_natCast]
    rfl

/-- The bytes of statements at their addresses are taken back as those statements, in order. -/
theorem disassemble_placed {t : Symbols} {ps : List (Nat × Statement)}
    (h : ∀ p ∈ ps, p.2.Encodes t p.1) :
    disassemble (ps.flatMap fun p => p.2.bytes t p.1) =
      some (ps.filterMap fun p => p.2.decoded? t p.1) := by
  induction ps with
  | nil => simp [disassemble]
  | cons p ps ih =>
    rw [List.forall_mem_cons] at h
    rw [List.flatMap_cons, disassemble_statement h.1, ih h.2]
    cases hp : p.2.decoded? t p.1 <;> simp [hp]

theorem Mnemonic.relative_of_isBranch {m : Mnemonic} (hm : m.isBranch = true) {opcode : Opcode}
    (hopcode : opcode ∈ m.opcodes) : opcode.mode = .relative := by
  -- checked over the whole table at once
  have hall : ∀ m ∈ Mnemonic.all, m.isBranch = true → ∀ o ∈ m.opcodes, o.mode = .relative := by
    decide +kernel
  exact hall m (by cases m <;> decide) hm opcode hopcode

theorem byteOf_toInt {n : Int} (hlow : -128 ≤ n) (hhigh : n ≤ 127) :
    (byteOf n).toBitVec.toInt = n := by
  rw [byteOf_toBitVec, BitVec.toInt_ofInt, Int.bmod_def]
  split <;> omega

/-- A branch to a symbol is two bytes, and the second leads from its end to the symbol. -/
theorem Statement.Encodes.branch {t : Symbols} {address : Nat} {s : Statement}
    (h : s.Encodes t address) {m : Mnemonic} {o : Operand} {name : String} (hformed : o.Formed)
    (hc : s.content = .instruction m o) (hm : m.isBranch = true) (ho : o.symbol? = some name) :
    s.size = 2 ∧ ∃ b v, (s.bytes t address)[1]? = some b ∧ t.value? name = some v ∧
      (address + s.size : Int) + b.toBitVec.toInt = v := by
  simp only [Statement.Encodes, hc] at h
  obtain ⟨opcode, hencoding, hencodes⟩ := h
  have hmode : opcode.mode = .relative :=
    Mnemonic.relative_of_isBranch hm (mem_opcodes_of_encoding? hencoding)
  have hopcode : opcode.size = 2 := by simp [Opcode.size, hmode, Mode.operandSize]
  have hsize : s.size = 2 := by simp [Statement.size, hc, hencoding, hopcode]
  obtain ⟨v, hv⟩ := Option.isSome_iff_exists.mp (hencodes.resolves name ho)
  have hreach := (hencodes.reaches hmode).1 name ho v hv
  have hterm : o.term.value t = v := by
    cases hterm : o.term with
    | number n => simp [Operand.symbol?, hterm] at ho
    | minus n => simp [Operand.symbol?, hterm] at ho
    | symbol other =>
      obtain rfl : other = name := by simpa [Operand.symbol?, hterm] using ho
      simp [Term.value, hv]
    | half half other =>
      have hsuits : o.Suits opcode.mode := encoding?_mode hencoding ▸ hformed.suits m
      simpa [hmode] using hsuits.half half other hterm
  refine ⟨hsize, byteOf ((v : Int) - (address + opcode.size : Nat)), v, ?_, hv, ?_⟩
  · simp [Statement.bytes, hc, hencoding, hmode, Mode.operandSize, littleEndian, Operand.carried,
      ho, hterm]
  · rw [byteOf_toInt hreach.1 hreach.2, hsize, hopcode]
    omega

/-- Every image is taken back as the unit it was assembled from. The walk uses up the bytes and
gives the instructions in order, each with the mode that was chosen for it and the low bytes of the
number that it carries. From the end of a branch its displacement leads to its symbol exactly. -/
theorem disassemble_assembled {file text : String} {ss : List Statement}
    (hread : readSource file text = .ok ss) {origin : Nat} {predefined : Symbols} {image : Image}
    (h : assemble origin predefined ss = .ok image) :
    disassemble image.code =
      some ((placed origin ss).filterMap fun p => p.2.decoded? image.symbols p.1) ∧
    ∀ k s m o name, ss[k]? = some s → s.content = .instruction m o → m.isBranch = true →
      o.symbol? = some name →
        ∃ b v, image.code[addressAt origin ss k + 1 - origin]? = some b ∧
          image.symbols.value? name = some v ∧
          (addressAt origin ss (k + 1) : Int) + b.toBitVec.toInt = v := by
  obtain ⟨-, hencodes, rfl⟩ := (assemble_eq_ok (readSource_formed hread)).mp h
  rw [code_of_rows]
  refine ⟨disassemble_placed hencodes, ?_⟩
  intro k s m o name hk hc hm ho
  have hplaced : (addressAt origin ss k, s) ∈ placed origin ss :=
    List.mem_of_getElem? (i := k) (by simp [placed_getElem?, hk])
  have hformed : o.Formed := by
    simpa [hc, Content.Formed] using readSource_formed hread s (List.mem_of_getElem? hk)
  obtain ⟨-, b, v, hb, hv, hreach⟩ := (hencodes _ hplaced).branch hformed hc hm ho
  have hle : origin ≤ addressAt origin ss k := by simp [addressAt]
  refine ⟨b, v, code_getElem? hk hb (by omega), hv, ?_⟩
  rw [addressAt_succ hk]
  exact_mod_cast hreach

theorem forwardUnit_disassembled :
    ∃ image, readSource "m" forwardText = .ok forwardUnit ∧
      assemble 0x200 [] forwardUnit = .ok image ∧
      disassemble image.code = some ((placed 0x200 forwardUnit).filterMap fun p =>
        p.2.decoded? image.symbols p.1) ∧
      ∃ b v, image.code[1]? = some b ∧ image.symbols.value? "E" = some v ∧
        (0x202 : Int) + b.toBitVec.toInt = v := by
  have hread : readSource "m" forwardText = .ok forwardUnit :=
    eq_ok_of_toOption (by decide +kernel)
  obtain ⟨image, h⟩ : ∃ image, assemble 0x200 [] forwardUnit = .ok image :=
    exists_eq_ok_of_isSome (by decide +kernel)
  obtain ⟨hwalk, hbranch⟩ := disassemble_assembled hread h
  exact ⟨image, hread, h, hwalk, hbranch 1 _ _ _ "E" rfl rfl rfl rfl⟩

end Toolchain6502.Assembly
