import Mathlib.Algebra.BigOperators.Group.List.Basic
import Mathlib.Algebra.Order.Group.Multiset
import Mathlib.Data.List.Perm.Basic
import Mathlib.Data.Multiset.AddSub
import Toolchain6502.Proofs.C.Passes

namespace Toolchain6502

section

variable {σ α κ ε M : Type} [AddCommMonoid M] (holds : σ → M → Prop) (fits : M → Prop)
  (f : σ → α → Except ε σ) (key : α → κ)

/-- A step adds an amount to what a state holds, as long as the sum fits. The step is told by its
key. -/
def Brings (k : κ) (amount : M) : Prop :=
  ∀ s m a, key a = k → holds s m → fits (m + amount) → ∃ s', f s a = .ok s' ∧ holds s' (m + amount)

variable {holds fits f key}

theorem foldlM_brings (hfits : ∀ m amount, fits (m + amount) → fits m) {as : List α}
    {amounts : List M} (h : List.Forall₂ (Brings holds fits f key) (as.map key) amounts)
    {s : σ} {m : M} (hholds : holds s m) (hsum : fits (m + amounts.sum)) :
    ∃ s', as.foldlM f s = .ok s' ∧ holds s' (m + amounts.sum) := by
  induction as generalizing amounts s m with
  | nil =>
    cases h
    exact ⟨s, rfl, by simpa using hholds⟩
  | cons a as ih =>
    cases h with
    | @cons _ amount _ amounts hstep hrest =>
      rw [List.sum_cons, ← add_assoc] at hsum ⊢
      obtain ⟨s₁, hs₁, hholds₁⟩ := hstep s m a rfl hholds (hfits _ _ hsum)
      obtain ⟨s', hs', hholds'⟩ := ih hrest hholds₁ hsum
      exact ⟨s', by rw [List.foldlM_cons, hs₁, ok_bind, hs'], hholds'⟩

/-- A run is the sum of its steps. -/
theorem exists_brings (hstep : ∀ s a s' m, holds s m → f s a = .ok s' →
      ∃ amount, Brings holds fits f key (key a) amount ∧ holds s' (m + amount))
    {as : List α} {s s' : σ} {m : M} (hholds : holds s m) (h : as.foldlM f s = .ok s') :
    ∃ amounts, List.Forall₂ (Brings holds fits f key) (as.map key) amounts ∧
      holds s' (m + amounts.sum) := by
  induction as generalizing s m with
  | nil =>
    obtain rfl := Except.ok.inj h
    exact ⟨[], .nil, by simpa using hholds⟩
  | cons a as ih =>
    rw [List.foldlM_cons] at h
    obtain ⟨s₁, hs₁, h⟩ := bind_eq_ok.mp h
    obtain ⟨amount, hbrings, hholds₁⟩ := hstep s a s₁ m hholds hs₁
    obtain ⟨amounts, hall, hholds'⟩ := ih hholds₁ h
    exact ⟨amount :: amounts, .cons hbrings hall, by rwa [List.sum_cons, ← add_assoc]⟩

/-- Steps with the same keys in another order succeed wherever the sum fits, and add the same. -/
theorem foldlM_reordered (hfits : ∀ m amount, fits (m + amount) → fits m)
    (hstep : ∀ s a s' m, holds s m → f s a = .ok s' →
      ∃ amount, Brings holds fits f key (key a) amount ∧ holds s' (m + amount))
    {as : List α} {s s' : σ} {m : M} (hholds : holds s m) (h : as.foldlM f s = .ok s') :
    ∃ sum, holds s' (m + sum) ∧ ∀ (bs : List α) t n, (as.map key).Perm (bs.map key) → holds t n →
      fits (n + sum) → ∃ t', bs.foldlM f t = .ok t' ∧ holds t' (n + sum) := by
  obtain ⟨amounts, hall, hholds'⟩ := exists_brings hstep hholds h
  refine ⟨amounts.sum, hholds', fun bs t n hperm hn hsum => ?_⟩
  obtain ⟨amounts', hall', hamounts⟩ := List.perm_comp_forall₂ hperm.symm hall
  rw [← hamounts.sum_eq] at hsum ⊢
  exact foldlM_brings hfits hall' hn hsum

end

theorem NameTable.mem_put {table : NameTable β} {name : String} {value : β} {v : String × β}
    (h : v ∈ table.put name value) : v = (name, value) ∨ v ∈ table := by
  induction table with
  | nil => simpa [NameTable.put] using h
  | cons entry rest ih =>
    rw [NameTable.put] at h
    split at h
    · rcases List.mem_cons.mp h with h | h
      · exact .inl h
      · exact .inr (List.mem_cons_of_mem _ h)
    · rcases List.mem_cons.mp h with h | h
      · exact .inr (h ▸ List.mem_cons_self)
      · exact (ih h).imp_right (List.mem_cons_of_mem _)

theorem NameTable.put_mem (table : NameTable β) (name : String) (value : β) :
    (name, value) ∈ table.put name value := by
  induction table with
  | nil => exact List.mem_cons_self
  | cons entry rest ih =>
    rw [NameTable.put]
    split
    · exact List.mem_cons_self
    · exact List.mem_cons_of_mem _ ih

theorem NameTable.mem_names_put {table : NameTable β} {name other : String} {value : β} :
    other ∈ (table.put name value).map Prod.fst ↔ other = name ∨ other ∈ table.map Prod.fst := by
  induction table with
  | nil => simp [NameTable.put]
  | cons entry rest ih =>
    rw [NameTable.put]
    split
    · rename_i hname
      simp [← hname]
    · simp only [List.map_cons, List.mem_cons, ih]
      tauto

namespace C

open Files Source

/-- What has been declared and emitted. The first three are noted before any code is generated. -/
@[ext]
structure Account where
  globals : Multiset String
  initial : Multiset String
  declared : Multiset String
  locals : Multiset String
  functions : Multiset String
  lines : Nat

namespace Account

instance : Zero Account := ⟨⟨0, 0, 0, 0, 0, 0⟩⟩

instance : Add Account :=
  ⟨fun m n => ⟨m.globals + n.globals, m.initial + n.initial, m.declared + n.declared,
    m.locals + n.locals, m.functions + n.functions, m.lines + n.lines⟩⟩

@[simp] theorem zero_globals : (0 : Account).globals = 0 := rfl
@[simp] theorem zero_initial : (0 : Account).initial = 0 := rfl
@[simp] theorem zero_declared : (0 : Account).declared = 0 := rfl
@[simp] theorem zero_locals : (0 : Account).locals = 0 := rfl
@[simp] theorem zero_functions : (0 : Account).functions = 0 := rfl
@[simp] theorem zero_lines : (0 : Account).lines = 0 := rfl

section

variable (m n : Account)

@[simp] theorem add_globals : (m + n).globals = m.globals + n.globals := rfl
@[simp] theorem add_initial : (m + n).initial = m.initial + n.initial := rfl
@[simp] theorem add_declared : (m + n).declared = m.declared + n.declared := rfl
@[simp] theorem add_locals : (m + n).locals = m.locals + n.locals := rfl
@[simp] theorem add_functions : (m + n).functions = m.functions + n.functions := rfl
@[simp] theorem add_lines : (m + n).lines = m.lines + n.lines := rfl

end

instance : AddCommMonoid Account where
  add_assoc m n k := by ext1 <;> simp [add_assoc]
  zero_add m := by ext1 <;> simp
  add_zero m := by ext1 <;> simp
  add_comm m n := by ext1 <;> simp [add_comm]
  nsmul := nsmulRec

def placed (m : Account) : Multiset String := m.globals + m.locals

/-- The variables have their bytes, and no global and no function is declared twice. -/
structure Fits (base : Int) (m : Account) : Prop where
  room : m.placed.card = 0 ∨ base + m.placed.card ≤ zeroPageLimit
  globals : m.globals.Nodup
  functions : m.functions.Nodup

theorem placed_add (m n : Account) : (m + n).placed = m.placed + n.placed := by
  simp only [placed, add_globals, add_locals]
  exact add_add_add_comm _ _ _ _

theorem Fits.of_add {base : Int} {m n : Account} (h : (m + n).Fits base) : m.Fits base where
  room := by
    have hroom := h.room
    rw [placed_add, Multiset.card_add] at hroom
    omega
  globals := (Multiset.nodup_add.mp h.globals).1
  functions := (Multiset.nodup_add.mp h.functions).1

theorem Fits.add {base : Int} {m n : Account} (h : m.Fits base) (hglobals : n.globals = 0)
    (hlocals : n.locals = 0) (hfunctions : n.functions = 0) : (m + n).Fits base := by
  have hplaced : (m + n).placed = m.placed := by simp [placed, hglobals, hlocals]
  refine ⟨hplaced ▸ h.room, ?_, ?_⟩
  · rw [add_globals, hglobals, add_zero]
    exact h.globals
  · rw [add_functions, hfunctions, add_zero]
    exact h.functions

end Account

/-- The bytes from the base on are taken by variables with the given names. -/
structure Allocation.Takes (base : Int) (a : Allocation) (names : Multiset String) : Prop where
  next : a.next = base + names.card
  known : ∀ name, name ∈ a.addresses.map Prod.fst ↔ name ∈ names
  below : ∀ v ∈ a.addresses, v.2 < a.next
  last : names ≠ 0 → ∃ v ∈ a.addresses, v.2 = a.next - 1

theorem Allocation.Takes.place {base : Int} {a : Allocation} {names : Multiset String}
    (h : a.Takes base names) (name : String) :
    Takes base { a with next := a.next + 1, addresses := a.addresses.put name a.next }
      (names + {name}) where
  next := by
    have hnext := h.next
    rw [Multiset.card_add, Multiset.card_singleton]
    push_cast
    omega
  known other := by
    rw [NameTable.mem_names_put, h.known, Multiset.mem_add, Multiset.mem_singleton, or_comm]
  below v hv := by
    rcases NameTable.mem_put hv with rfl | hv
    · exact Int.lt_succ a.next
    · have hbelow := h.below v hv
      dsimp only
      omega
  last _ := ⟨_, NameTable.put_mem _ _ _, by dsimp only; omega⟩

/-- The state of the pass that places globals, as an account. -/
structure Allocation.Holds (base : Int) (a : Allocation) (m : Account) : Prop where
  fits : m.Fits base
  takes : a.Takes base m.placed
  globals : (a.globals.map Variable.name : Multiset String) = m.globals
  initial : (a.initializers.map Initializer.expression : Multiset String) = m.initial
  declared : (a.declared : Multiset String) = m.declared

def Declaration.account (d : Declaration) : Account :=
  { (0 : Account) with globals := {d.name}, initial := (d.initial.toList : Multiset String) }

theorem nodup_add_singleton {names : Multiset String} {name : String} :
    (names + {name}).Nodup ↔ name ∉ names ∧ names.Nodup := by
  rw [add_comm, Multiset.singleton_add, Multiset.nodup_cons]

theorem find?_name_eq_none {vs : List Variable} {name : String} :
    vs.find? (·.name = name) = none ↔ name ∉ vs.map Variable.name := by
  simp [List.find?_eq_none]

@[simp] theorem Declaration.placed_account (d : Declaration) : d.account.placed = {d.name} := by
  simp [Account.placed, account]

namespace Account

variable {base : Int} {m : Account}

/-- A variable can be added just if a byte is left, and its name is new if it is a global. -/
theorem fits_add_variable {n : Account} {name : String} (h : m.Fits base)
    (hplaced : n.placed = {name}) (hfunctions : n.functions = 0) : (m + n).Fits base ↔
      (m + n).globals.Nodup ∧ base + m.placed.card < zeroPageLimit := by
  have hcard : (m + n).placed.card = m.placed.card + 1 := by
    rw [placed_add, hplaced, Multiset.card_add, Multiset.card_singleton]
  constructor
  · intro hsum
    refine ⟨hsum.globals, ?_⟩
    have hroom := hsum.room
    rw [hcard] at hroom
    omega
  · rintro ⟨hglobals, hroom⟩
    refine ⟨.inr ?_, hglobals, ?_⟩
    · rw [hcard]
      omega
    · rw [add_functions, hfunctions, add_zero]
      exact h.functions

end Account

namespace Allocation

variable {base : Int} {current : List String} {path : Path} {line : SourceLine}
  {location : Location} {a a' : Allocation} {m : Account}

theorem holds_start (base : Int) : Holds base { next := base } 0 where
  fits := ⟨.inl rfl, Multiset.nodup_zero, Multiset.nodup_zero⟩
  takes := ⟨by simp [Account.placed], by simp [Account.placed], by simp, by simp [Account.placed]⟩
  globals := rfl
  initial := rfl
  declared := rfl

theorem Holds.fits_global_iff (h : a.Holds base m) (d : Declaration) : (m + d.account).Fits base ↔
    a.globals.find? (·.name = d.name) = none ∧ a.next < zeroPageLimit := by
  have hnew : (m + d.account).globals.Nodup ↔ d.name ∉ m.globals :=
    nodup_add_singleton.trans (and_iff_left h.fits.globals)
  rw [Account.fits_add_variable h.fits d.placed_account rfl, hnew, find?_name_eq_none, h.takes.next,
    ← h.globals, Multiset.mem_coe]

theorem Holds.global (h : a.Holds base m) {d : Declaration} (hfits : (m + d.account).Fits base)
    {added : List Initializer} (hadded : added.map Initializer.expression = d.initial.toList)
    (location : Location) :
    Holds base { a with
      next := a.next + 1
      addresses := a.addresses.put d.name a.next
      globals := a.globals ++ [⟨d.name, a.next, location⟩]
      initializers := a.initializers ++ added } (m + d.account) where
  fits := hfits
  takes := by
    have htakes := h.takes.place d.name
    rw [Account.placed_add, d.placed_account]
    exact ⟨htakes.next, htakes.known, htakes.below, htakes.last⟩
  globals := by
    rw [List.map_append, ← Multiset.coe_add, h.globals]
    rfl
  initial := by
    rw [List.map_append, ← Multiset.coe_add, h.initial, hadded]
    rfl
  declared := by simp [h.declared, Declaration.account]

/-- From one allocation to another one an amount is added, and a computation adds it to every
allocation as long as the sum fits. -/
structure Adds {β : Type} (base : Int) (a a' : Allocation) (amount : Account)
    (result : Allocation → β) (run : Allocation → Except Failure β) : Prop where
  holds : ∀ m, a.Holds base m → a'.Holds base (m + amount)
  others : ∀ b m, b.Holds base m → (m + amount).Fits base →
    ∃ b', run b = .ok (result b') ∧ b'.Holds base (m + amount)

theorem Adds.nothing {β : Type} (base : Int) (a : Allocation) (result : Allocation → β) :
    Adds base a a 0 result fun b => .ok (result b) :=
  ⟨fun m hm => by rwa [add_zero], fun b m hb _ => ⟨b, rfl, by rwa [add_zero]⟩⟩

theorem addGlobal_adds (base : Int) {d : Declaration}
    (h : a.addGlobal current path line location d = .ok a') :
    Adds base a a' d.account id (·.addGlobal current path line location d) := by
  have hnew : a.globals.find? (·.name = d.name) = none := by
    unfold addGlobal at h
    cases hfirst : a.globals.find? (·.name = d.name) with
    | none => rfl
    | some first => simp [hfirst, fail] at h
  obtain ⟨hroom, added, rfl, hfiles, hadded⟩ := addGlobal_eq_ok h
  refine ⟨fun m hm => hm.global ((hm.fits_global_iff d).mpr ⟨hnew, hroom⟩) hadded location, ?_⟩
  intro b m hb hfits
  have hsome {added : List Initializer} (hexpressions : added.map Initializer.expression =
      d.initial.toList) := hb.global hfits hexpressions location
  obtain ⟨hnew, hroom⟩ := (hb.fits_global_iff d).mp hfits
  unfold addGlobal
  simp only [hnew, place_eq_ok.mpr ⟨hroom, rfl, rfl⟩, ok_bind]
  cases hinitial : d.initial with
  | none =>
    have hnone := hsome (List.map_nil.trans (by rw [hinitial]; rfl))
    exact ⟨_, rfl, by simpa using hnone⟩
  | some expression =>
    -- the path of the file is told by the initial value that was added before
    obtain ⟨i, hi⟩ : ∃ i, i ∈ added := by
      apply List.exists_mem_of_ne_nil
      rintro rfl
      simp [hinitial] at hadded
    simp only [(hfiles i hi).2, ok_bind]
    exact ⟨_, rfl, hsome (by simp [hinitial])⟩

theorem Holds.declares (h : a.Holds base m) (name : String) :
    Holds base { a with declared := a.declared ++ [name] }
      (m + { (0 : Account) with declared := {name} }) where
  fits := h.fits.add rfl rfl rfl
  takes := by
    have hplaced : (m + { (0 : Account) with declared := {name} }).placed = m.placed := by
      simp [Account.placed]
    rw [hplaced]
    exact ⟨h.takes.next, h.takes.known, h.takes.below, h.takes.last⟩
  globals := by simp [h.globals]
  initial := by simp [h.initial]
  declared := by
    rw [← Multiset.coe_add, h.declared]
    rfl

theorem topLine_adds (base : Int) {depth : Nat}
    (h : a.topLine current path line location = .ok (depth, a')) :
    ∃ amount, Adds base a a' amount (depth, ·) (·.topLine current path line location) := by
  unfold topLine at h ⊢
  obtain ⟨prototype, hprototype, h⟩ := bind_eq_ok.mp h
  simp only [hprototype, ok_bind]
  cases prototype with
  | some name =>
    obtain ⟨rfl, rfl⟩ := Prod.mk.inj (Except.ok.inj h)
    exact ⟨0, .nothing base a _⟩
  | none =>
  obtain ⟨external, hexternal, h⟩ := bind_eq_ok.mp h
  simp only [Option.isSome_none, Bool.false_eq_true, if_false, hexternal, ok_bind]
  cases external with
  | true =>
    obtain ⟨rfl, rfl⟩ := Prod.mk.inj (Except.ok.inj h)
    exact ⟨0, .nothing base a _⟩
  | false =>
  obtain ⟨start, hstart, h⟩ := bind_eq_ok.mp h
  simp only [Bool.false_eq_true, if_false, hstart, ok_bind]
  cases start with
  | some name =>
    obtain ⟨rfl, rfl⟩ := Prod.mk.inj (Except.ok.inj h)
    exact ⟨_, fun m hm => hm.declares name, fun b m hb _ => ⟨_, rfl, hb.declares name⟩⟩
  | none =>
  obtain ⟨d, hd, h⟩ := bind_eq_ok.mp h
  simp only [hd, ok_bind]
  cases d with
  | none =>
    obtain ⟨rfl, rfl⟩ := Prod.mk.inj (Except.ok.inj h)
    exact ⟨0, .nothing base a _⟩
  | some d =>
    obtain ⟨added, hadded, h⟩ := bind_eq_ok.mp h
    obtain ⟨rfl, rfl⟩ := Prod.mk.inj (Except.ok.inj h)
    have hadds := addGlobal_adds base hadded
    refine ⟨d.account, hadds.holds, fun b m hb hfits => ?_⟩
    obtain ⟨b', hb', hholds⟩ := hadds.others b m hb hfits
    exact ⟨b', by simp only [hb', id, ok_bind, pure_eq_ok], hholds⟩

theorem addLines_adds (base : Int) {file : SourceFile} {ls : List SourceLine} {depth : Nat}
    (h : addLines current file depth a ls = .ok a') :
    ∃ amount, Adds base a a' amount id (addLines current file depth · ls) := by
  induction ls generalizing depth a with
  | nil =>
    obtain rfl : a = a' := by cases depth <;> exact Except.ok.inj h
    cases depth <;> exact ⟨0, .nothing base a id⟩
  | cons line rest ih =>
    cases depth with
    | succ depth => exact ih h
    | zero =>
      obtain ⟨⟨depth, a₁⟩, ha₁, h⟩ := bind_eq_ok.mp h
      obtain ⟨first, hfirst⟩ := topLine_adds base (atLine_eq_ok.mp ha₁)
      obtain ⟨later, hlater⟩ := ih h
      refine ⟨first + later, fun m hm => ?_, fun b m hb hfits => ?_⟩
      · rw [← add_assoc]
        exact hlater.holds _ (hfirst.holds m hm)
      · rw [← add_assoc] at hfits ⊢
        obtain ⟨b₁, hb₁, hholds₁⟩ := hfirst.others b m hb hfits.of_add
        obtain ⟨b', hb', hholds⟩ := hlater.others b₁ _ hholds₁ hfits
        refine ⟨b', ?_, hholds⟩
        rw [addLines, atLine_eq_ok.mpr hb₁, ok_bind]
        exact hb'

/-- Files can be gone over in any order, and the sum is the same. -/
theorem addFiles_reordered {files files' : List SourceFile} (hperm : files.Perm files')
    (h : files.foldlM (addFile current) { next := base } = .ok a) :
    ∃ m a', files'.foldlM (addFile current) { next := base } = .ok a' ∧ a.Holds base m ∧
      a'.Holds base m := by
  have hstep (s : Allocation) (f : SourceFile) (s' : Allocation) (m : Account)
      (hm : s.Holds base m) (hs' : s.addFile current f = .ok s') :
      ∃ amount, Brings (Holds base) (Account.Fits base) (addFile current) id f amount ∧
        s'.Holds base (m + amount) := by
    obtain ⟨amount, hadds⟩ := addLines_adds base hs'
    refine ⟨amount, ?_, hadds.holds m hm⟩
    rintro t n _ rfl ht hsum
    exact hadds.others t n ht hsum
  have hstart := holds_start base
  obtain ⟨sum, hsum, hothers⟩ :=
    foldlM_reordered (fun _ _ => Account.Fits.of_add) hstep hstart h
  obtain ⟨a', ha', hholds⟩ := hothers _ _ _ (hperm.map id) hstart hsum.fits
  exact ⟨_, a', ha', hsum, hholds⟩

end Allocation

end C

end Toolchain6502
