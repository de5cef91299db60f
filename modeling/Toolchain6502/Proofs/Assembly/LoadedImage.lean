import Toolchain6502.Proofs.Assembly.ReferenceLayout
import Toolchain6502.Proofs.Cpu.Machine

namespace Toolchain6502.Assembly

open Cpu

theorem byteOf_toBitVec (n : Int) : (byteOf n).toBitVec = BitVec.ofInt 8 n := by
  apply BitVec.eq_of_toNat_eq
  have hn : n % 0x100 < 0x100 := by omega
  simp [byteOf, BitVec.toNat_ofInt, hn]

theorem word_of_bytes (n : Int) :
    BitVec.ofInt 8 (n / 0x100) ++ BitVec.ofInt 8 n = BitVec.ofInt 16 n := by
  apply BitVec.eq_of_toNat_eq
  -- the low byte is below the shifted high one, so the two do not overlap
  rw [BitVec.toNat_append, ← Nat.shiftLeft_add_eq_or_of_lt (BitVec.isLt _)]
  simp only [BitVec.toNat_ofInt, Nat.shiftLeft_eq]
  omega

theorem signExtend_ofInt {n : Int} (hlow : -128 ≤ n) (hhigh : n ≤ 127) :
    (BitVec.ofInt 8 n).signExtend 16 = BitVec.ofInt 16 n := by
  rw [BitVec.signExtend, BitVec.toInt_ofInt]
  congr 1
  rw [Int.bmod_def]
  split <;> omega

theorem flatMap_placed_getElem? {f : Nat × Statement → List α} (hf : ∀ p, (f p).length = p.2.size)
    {origin : Nat} {ss : List Statement} {k i j : Nat} {s : Statement} (hk : ss[k]? = some s)
    (hj : j < s.size) (hi : origin + i = addressAt origin ss k + j) :
    ((placed origin ss).flatMap f)[i]? = (f (addressAt origin ss k, s))[j]? := by
  induction ss generalizing origin k i with
  | nil => simp at hk
  | cons first rest ih =>
    rw [placed_cons, List.flatMap_cons]
    have hlength : (f (origin, first)).length = first.size := hf _
    cases k with
    | zero =>
      obtain rfl : first = s := by simpa using hk
      rw [addressAt_zero] at hi ⊢
      obtain rfl : i = j := by omega
      exact List.getElem?_append_left (by omega)
    | succ k =>
      rw [addressAt_cons] at hi ⊢
      have hle : origin + first.size ≤ addressAt (origin + first.size) rest k := by
        simp [addressAt]
      rw [List.getElem?_append_right (by omega), hlength]
      exact ih (by simpa using hk) (by omega)

theorem code_getElem? {t : Symbols} {origin : Nat} {ss : List Statement} {k i j : Nat}
    {s : Statement} {b : UInt8} (hk : ss[k]? = some s)
    (hb : (s.bytes t (addressAt origin ss k))[j]? = some b)
    (hi : origin + i = addressAt origin ss k + j) :
    ((placed origin ss).flatMap fun p => p.2.bytes t p.1)[i]? = some b := by
  have hj : j < s.size := by
    rw [← s.bytes_length t (addressAt origin ss k)]
    exact (List.getElem?_eq_some_iff.mp hb).1
  rw [← hb]
  exact flatMap_placed_getElem? (fun p => p.2.bytes_length t p.1) hk hj hi

/-- Every offset below the size of a unit lies in one of its statements. -/
theorem exists_statement_at (origin : Nat) {ss : List Statement} {i : Nat}
    (hi : i < (ss.map Statement.size).sum) :
    ∃ k s j, ss[k]? = some s ∧ j < s.size ∧ origin + i = addressAt origin ss k + j := by
  induction ss generalizing origin i with
  | nil => simp at hi
  | cons first rest ih =>
    rw [List.map_cons, List.sum_cons] at hi
    by_cases hfirst : i < first.size
    · exact ⟨0, first, i, rfl, hfirst, by rw [addressAt_zero]⟩
    · obtain ⟨k, s, j, hk, hj, hplace⟩ := ih (origin + first.size) (i := i - first.size) (by omega)
      refine ⟨k + 1, s, j, hk, hj, ?_⟩
      rw [addressAt_cons, ← hplace]
      omega

/-- Where an image is loaded, every statement has its bytes at its address. -/
theorem holds_statement {t : Symbols} {origin : Nat} {ss : List Statement} {m : Memory}
    (h : Holds m origin ((placed origin ss).flatMap fun p => p.2.bytes t p.1)) {k : Nat}
    {s : Statement} (hk : ss[k]? = some s) :
    Holds m (addressAt origin ss k) (s.bytes t (addressAt origin ss k)) := by
  intro j b hb
  have hle : origin ≤ addressAt origin ss k := by simp [addressAt]
  have hi : origin + (addressAt origin ss k - origin + j) = addressAt origin ss k + j := by omega
  rw [← hi]
  exact h _ b (code_getElem? hk hb hi)

structure Fetched (c : Machine) (m : Mnemonic) (opcode : Opcode) (after : Nat) (v : Int) : Prop where
  decoded : decode? (c.fetch 0) = some (m, opcode.mode)
  next : c.next opcode.mode = BitVec.ofNat 16 after
  byte : opcode.mode.operandSize = 1 → c.fetch 1 = BitVec.ofInt 8 v
  word : opcode.mode.operandSize = 2 → c.word = BitVec.ofInt 16 v

theorem Fetched.step {c : Machine} {m : Mnemonic} {opcode : Opcode} {after : Nat} {v : Int}
    (h : Fetched c m opcode after v) : c.step? = c.execute? m opcode.mode := by
  rw [Machine.step?, h.decoded]
  rfl

theorem fetched_of_holds {c : Machine} {a : Nat} {m : Mnemonic} {opcode : Opcode} {v : Int}
    (hopcode : opcode ∈ m.opcodes) (hpc : c.pc = BitVec.ofNat 16 a)
    (h : Holds c.state.memory a (opcode.code :: littleEndian opcode.mode.operandSize v)) :
    Fetched c m opcode (a + opcode.size) v := by
  constructor
  · have hcode : c.fetch 0 = opcode.code.toBitVec := Machine.fetch_of_holds hpc h rfl
    rw [hcode, decode?_code hopcode]
  · rw [Machine.next, hpc, Opcode.size, ← BitVec.ofNat_add]
  · intro hsize
    rw [hsize] at h
    rw [Machine.fetch_of_holds hpc h rfl, byteOf_toBitVec]
  · intro hsize
    rw [hsize] at h
    have hlow : c.fetch 1 = BitVec.ofInt 8 v := by
      rw [Machine.fetch_of_holds hpc h rfl, byteOf_toBitVec]
    have hhigh : c.fetch 2 = BitVec.ofInt 8 (v / 0x100) := by
      rw [Machine.fetch_of_holds hpc h rfl, byteOf_toBitVec]
    rw [Machine.word, hlow, hhigh, word_of_bytes]

end Toolchain6502.Assembly
