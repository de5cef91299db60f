import Toolchain6502.Proofs.C.CompiledCode
import Toolchain6502.Proofs.C.FlowRun
import Toolchain6502.Proofs.C.ImageRun
import Toolchain6502.Proofs.C.Names

namespace Toolchain6502.C

open Cpu

theorem codeAt_function {functions : List Function} {f : Function} (hf : f ∈ functions) :
    ∃ line n, CodeAt (Progress.ofFunctions functions).code line (f.code n).1 := by
  induction functions using List.reverseRecOn with
  | nil => simp at hf
  | append_singleton fs g ih =>
    rw [Progress.ofFunctions_concat]
    rcases List.mem_append.mp hf with hf | hf
    · obtain ⟨line, n, hcode⟩ := ih hf
      exact ⟨line, n, hcode.append_left _⟩
    · obtain rfl := List.mem_singleton.mp hf
      refine ⟨(Progress.ofFunctions fs).code.length, (Progress.ofFunctions fs).labels, ?_⟩
      intro i l hl
      show ((Progress.ofFunctions fs).code ++ (f.code _).1)[_ + i]? = some l
      rw [List.getElem?_append_right (by omega), Nat.add_sub_cancel_left]
      exact hl

/-- A run of the body of a function, from its label to where it ends. -/
theorem Function.runs {program : Code} (hdistinct : (labelsOf program).Nodup)
    {writable : Word → Prop} (hscratch : ∀ b ∈ scratch, writable b) {f : Function} {n line : Nat}
    (hcode : CodeAt program line (f.code n).1) {s : State} {e : Effect}
    (hexec : Exec f.body s.memory e) (hflat : f.body.rightFlat = true)
    (hpermits : Permits writable e.accesses) :
    ∃ (line' : Nat) (t : State), Runs program writable ⟨line, s⟩ ⟨line', t⟩ ∧
      program[line']? = some (leaveCode f.name) ∧ Agrees t.memory e.memory := by
  have hparts : CodeAt program line
      ([.label f.name] ++ (f.body.code f.name n).1 ++ [leaveCode f.name, .empty]) := hcode
  have hlabel : program[line]? = some (.label f.name) := hparts.left.left.head
  have hbody : CodeAt program (line + 1) (f.body.code f.name n).1 := hparts.left.right
  have hend : program[line + 1 + (f.body.code f.name n).1.length]? = some (leaveCode f.name) := by
    have hleave := hparts.right.head
    rwa [List.length_append, ← Nat.add_assoc] at hleave
  obtain ⟨line', t, hruns, hagrees, harrives⟩ :=
    Flow.runs hdistinct hscratch hexec hflat hpermits hbody (fun _ _ => rfl)
  refine ⟨line', t, (Runs.label hlabel).trans hruns, ?_, hagrees⟩
  -- either the body has left the function or its end follows
  cases hending : e.ending with
  | next =>
    rw [hending] at harrives
    obtain rfl : line' = _ := harrives
    exact hend
  | left =>
    rw [hending] at harrives
    exact harrives

theorem scratch_in_page_zero : scratch.all (·.toNat < 0x100) = true := by
  decide

/-- Every function of a source that is compiled, assembled and loaded outside page zero does to the
memory what its statements say. The processor goes from the label of the function to the instruction
that ends it, for every memory from which the statements come to an end, keep off the bytes that
generated code takes, and leave the image alone. A call has no effect of its own, so no run of the
statements passes one. -/
theorem compiled_function_runs {current : List String} {options : Options}
    {files : List SourceFile} {compiled : Compiled}
    (hcompile : compile current options files = .ok compiled) {file : String}
    {ss : List Assembly.Statement}
    (hread : Assembly.readSource file compiled.assembly.text = .ok ss) {origin : Nat}
    {predefined : Assembly.Symbols} {image : Assembly.Image}
    (hassemble : Assembly.assemble origin predefined ss = .ok image)
    (hpage : ∀ b, Occupied origin image.code b → 0x100 ≤ b.toNat) :
    ∃ functions, readFunctions current options files = .ok functions ∧
      compiled.functions = functions.map Function.name ∧
      ∀ f ∈ functions, f.body.rightFlat = true →
        ∃ entry, image.symbols.value? f.name = some entry ∧
          ∀ (s : State) (e : Effect), Holds s.memory origin image.code →
            Exec f.body s.memory e → (∀ a ∈ e.accesses, a.cell ∉ scratch) →
            (∀ b, .write b ∈ e.accesses → ¬Occupied origin image.code b) →
            ∃ c : Machine, Machine.Reaches ⟨BitVec.ofNat 16 entry, s⟩ c ∧
              decode? (c.fetch 0) = some (if isEntry f.name then .brk else .rts, .implied) ∧
              c.step? = none ∧ ∀ b ∉ scratch, c.state.memory b = e.memory b := by
  obtain ⟨functions, hfunctions, hnames, hlines⟩ := compile_eq_code hcompile
  -- the names are symbols, so the assembler reads the lines that were written
  have hnamed : Named (compiled.lines.map Prod.fst) := by
    rw [hlines]
    exact ofFunctions_named (readFunctions_named hfunctions)
  obtain ⟨rows, hlinked⟩ := linked_of_assemble hnamed hread hassemble
  rw [hlines] at hlinked
  refine ⟨functions, hfunctions, hnames, ?_⟩
  intro f hf hflat
  obtain ⟨line, n, hcode⟩ := codeAt_function hf
  refine ⟨lineAddress origin rows line, hlinked.value? hcode.head, ?_⟩
  intro s e hholds hexec hapart hwritten
  -- generated code writes its own bytes, which lie in page zero, and what the statements write
  have hscratch : ∀ b ∈ scratch, ¬Occupied origin image.code b := by
    intro b hb hoccupied
    have hlow : b.toNat < 0x100 := by simpa using List.all_eq_true.mp scratch_in_page_zero b hb
    have hhigh := hpage b hoccupied
    omega
  obtain ⟨line', t, hruns, hleave, hagrees⟩ :=
    Function.runs hlinked.distinct hscratch hcode hexec hflat ⟨hapart, hwritten⟩
  -- so the image still stands where the run ends
  have hkept : Holds t.memory origin image.code :=
    hholds.congr fun b hb => hruns.memory (not_not_intro hb)
  have hdecode := hlinked.decode?_leave hleave (c := Point.machine origin rows ⟨line', t⟩) rfl hkept
  refine ⟨Point.machine origin rows ⟨line', t⟩, ?_, hdecode, ?_, hagrees⟩
  · exact hlinked.reaches_of_runs (fun b hb => not_not_intro hb) hruns hholds
  · apply Machine.step?_of_decode hdecode
    cases isEntry f.name
    · exact .inl rfl
    · exact .inr rfl

def sumSource : SourceFile := .ofText (.ofText "sum")
  "unsigned char total;
void Sum() \x7b
  unsigned char i;
  for (i = 1; i < 3; i++) \x7b
    total = total + i;
  \x7d
\x7d"

def sumStart : Statement := .assign 0x41 (.term (.immediate (.whole 1)))

def sumAdd : Statement := .assign 0x40 (.binary .add (.term (.byte 0x40)) (.term (.byte 0x41)))

def sumFunction : Function where
  name := "Sum"
  body := .seq (.seq .skip (.act sumStart))
    (.loop .forLoop (some ⟨.term (.byte 0x41), .lt, .term (.immediate (.whole 3))⟩)
      (.seq (.seq .skip (.act sumAdd)) (.act (.increment 0x41))))

def sumLines : List String := [
  "Sum:", "        LDA     #$01", "        STA     $41",
  "CFORS0:", "        LDA     $41", "        STA     $23", "        LDA     #$03",
  "        STA     $21", "        LDA     $23", "        CMP     $21", "        BCS     CFORE1",
  "        LDA     $40", "        STA     $20", "        LDA     $41", "        STA     $21",
  "        LDA     $20", "        CLC", "        ADC     $21", "        STA     $40",
  "        INC     $41", "        JMP     CFORS0", "CFORE1:", "        RTS", ""]

theorem sumFunction_read : readFunctions [] {} [sumSource] = .ok [sumFunction] :=
  eq_ok_of_toOption (by decide +kernel)

theorem sumFunction_exec (bytes : List UInt8) :
    ∃ e, Exec sumFunction.body (loaded 0x200 bytes) e ∧
      (∀ a ∈ e.accesses, a.cell = 0x40 ∨ a.cell = 0x41) ∧ e.memory 0x40 = 3 := by
  have hstart := Exec.seq (.skip (loaded 0x200 bytes)) (.act (s := sumStart) rfl)
  have hround (m : Memory) :=
    Exec.seq (.seq (.skip m) (.act (s := sumAdd) rfl)) (.act (s := .increment 0x41) rfl)
  refine ⟨_, .seq hstart (.round ?_ (hround _) (.round ?_ (hround _) (.exit ?_))), ?_, ?_⟩
  · rfl
  · rfl
  · rfl
  · apply of_decide_eq_true
    rfl
  · rfl

/-- The text that is compiled from the loop is assembled. -/
theorem sum_assembles : ∃ (compiled : Compiled) (ss : List Assembly.Statement)
    (image : Assembly.Image), compile [] {} [sumSource] = .ok compiled ∧
      Assembly.readSource "sum" compiled.assembly.text = .ok ss ∧
      Assembly.assemble 0x200 [] ss = .ok image ∧ image.code.length = 39 ∧
      image.symbols.value? "Sum" = some 0x200 := by
  obtain ⟨compiled, hcompile⟩ : ∃ compiled, compile [] {} [sumSource] = .ok compiled :=
    exists_eq_ok_of_isSome (by decide +kernel)
  obtain ⟨functions, hfunctions, -, hlines⟩ := compile_eq_code hcompile
  obtain rfl : [sumFunction] = functions := Except.ok.inj (sumFunction_read.symm.trans hfunctions)
  have htext : Text.lines compiled.assembly.text = sumLines := by
    have hnamed := ofFunctions_named (readFunctions_named hfunctions)
    rw [← hlines] at hnamed
    rw [Compiled.assembly, lines_codeText hnamed, hlines]
    decide +kernel
  have himage : ((Assembly.readLinesFrom "sum" 1 sumLines).toOption.bind fun ss =>
      (Assembly.assemble 0x200 [] ss).toOption.map fun image =>
        (image.code.length, image.symbols.value? "Sum")) = some (39, some 0x200) := by
    decide +kernel
  obtain ⟨ss, hss, himage⟩ := Option.bind_eq_some_iff.mp himage
  obtain ⟨image, himage, hsize⟩ := Option.map_eq_some_iff.mp himage
  refine ⟨compiled, ss, image, hcompile, ?_, eq_ok_of_toOption himage, congrArg Prod.fst hsize,
    congrArg Prod.snd hsize⟩
  rw [Assembly.readSource, htext]
  exact eq_ok_of_toOption hss

theorem sum_runs : ∃ (compiled : Compiled) (ss : List Assembly.Statement) (image : Assembly.Image)
    (e : Effect) (c : Machine), compile [] {} [sumSource] = .ok compiled ∧
      Assembly.readSource "sum" compiled.assembly.text = .ok ss ∧
      Assembly.assemble 0x200 [] ss = .ok image ∧
      Exec sumFunction.body (loaded 0x200 image.code) e ∧
      Machine.Reaches ⟨0x200, ⟨0, 0, false, false, loaded 0x200 image.code⟩⟩ c ∧
      decode? (c.fetch 0) = some (.rts, .implied) ∧ c.state.memory 0x40 = 3 := by
  obtain ⟨compiled, ss, image, hcompile, hread, hassemble, hlength, hentry⟩ := sum_assembles
  have hfits : 0x200 + image.code.length ≤ 0x10000 := by omega
  have hpage : ∀ b, Occupied 0x200 image.code b → 0x100 ≤ b.toNat := by
    intro b hb
    have hle := hb.le hfits
    omega
  obtain ⟨functions, hfunctions, -, hruns⟩ :=
    compiled_function_runs hcompile hread hassemble hpage
  obtain rfl : [sumFunction] = functions := Except.ok.inj (sumFunction_read.symm.trans hfunctions)
  obtain ⟨entry, hvalue, hruns⟩ := hruns sumFunction List.mem_cons_self rfl
  obtain rfl : 0x200 = entry := Option.some.inj (hentry.symm.trans hvalue)
  obtain ⟨e, hexec, hcells, htotal⟩ := sumFunction_exec image.code
  have hapart : ∀ a ∈ e.accesses, a.cell ∉ scratch := by
    intro a ha
    rcases hcells a ha with hcell | hcell <;> rw [hcell] <;> decide
  have hwritten : ∀ b, .write b ∈ e.accesses → ¬Occupied 0x200 image.code b := by
    intro b hb hoccupied
    have hhigh := hoccupied.le hfits
    rcases hcells _ hb with rfl | rfl <;> exact absurd hhigh (by decide)
  obtain ⟨c, hreaches, hdecode, -, hmemory⟩ := hruns
    ⟨0, 0, false, false, loaded 0x200 image.code⟩ e (holds_loaded hfits) hexec hapart hwritten
  refine ⟨compiled, ss, image, e, c, hcompile, hread, hassemble, hexec, hreaches, hdecode, ?_⟩
  rw [hmemory _ (by decide), htotal]

end Toolchain6502.C
