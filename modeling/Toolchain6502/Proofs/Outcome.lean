namespace Toolchain6502

@[simp] theorem pure_eq_ok (a : α) : (pure a : Except ε α) = .ok a := rfl

@[simp] theorem throw_eq_error (e : ε) : (throw e : Except ε α) = .error e := rfl

@[simp] theorem ok_bind (a : α) (f : α → Except ε β) : (Except.ok a >>= f) = f a := rfl

@[simp] theorem error_bind (e : ε) (f : α → Except ε β) : (Except.error e >>= f) = .error e := rfl

theorem bind_eq_ok {x : Except ε α} {f : α → Except ε β} {b : β} :
    (x >>= f) = .ok b ↔ ∃ a, x = .ok a ∧ f a = .ok b := by
  cases x <;> simp

theorem bind_eq_error {x : Except ε α} {f : α → Except ε β} {e : ε} :
    (x >>= f) = .error e ↔ x = .error e ∨ ∃ a, x = .ok a ∧ f a = .error e := by
  cases x <;> simp

/-- Steps on a state. What was done to it before a failure stays done. -/
theorem bind_apply (x : ExceptT ε (StateM σ) α) (f : α → ExceptT ε (StateM σ) β) (s : σ) :
    (x >>= f) s = match x s with
      | (.ok a, s₁) => f a s₁
      | (.error e, s₁) => (.error e, s₁) := by
  simp only [Bind.bind, ExceptT.bind, ExceptT.mk, StateT.bind]
  cases x s with
  | mk r s₁ => cases r <;> rfl

theorem foldlM_simulates {R : σ → τ → Prop} {f : σ → α → Except ε σ} {g : τ → α → Except ε τ}
    (hstep : ∀ s t a s', R s t → f s a = .ok s' → ∃ t', g t a = .ok t' ∧ R s' t') {l : List α}
    {s s' : σ} {t : τ} (h : R s t) (hf : l.foldlM f s = .ok s') :
    ∃ t', l.foldlM g t = .ok t' ∧ R s' t' := by
  induction l generalizing s t with
  | nil =>
    obtain rfl := Except.ok.inj hf
    exact ⟨t, rfl, h⟩
  | cons a l ih =>
    rw [List.foldlM_cons] at hf
    obtain ⟨s₁, hs₁, hf⟩ := bind_eq_ok.mp hf
    obtain ⟨t₁, ht₁, h₁⟩ := hstep s t a s₁ h hs₁
    obtain ⟨t', ht', h'⟩ := ih h₁ hf
    exact ⟨t', by rw [List.foldlM_cons, ht₁, ok_bind, ht'], h'⟩

/-- A fold that succeeds, cut at one of its steps. -/
theorem foldlM_append_cons_eq_ok {f : σ → α → Except ε σ} {l l' : List α} {a : α} {s t : σ} :
    (l ++ a :: l').foldlM f s = .ok t ↔
      ∃ u v, l.foldlM f s = .ok u ∧ f u a = .ok v ∧ l'.foldlM f v = .ok t := by
  simp only [List.foldlM_append, List.foldlM_cons, bind_eq_ok, exists_and_left]

theorem foldlM_append_cons_eq_error {f : σ → α → Except ε σ} {l l' : List α} {a : α} {s t : σ}
    {e : ε} (hl : l.foldlM f s = .ok t) (ha : f t a = .error e) :
    (l ++ a :: l').foldlM f s = .error e := by
  rw [List.foldlM_append, hl, ok_bind, List.foldlM_cons, ha]
  rfl

theorem foldlM_preserves {P : σ → Prop} {f : σ → α → Except ε σ} {l : List α}
    (hstep : ∀ s a s', a ∈ l → P s → f s a = .ok s' → P s') {s s' : σ} (h : P s)
    (hf : l.foldlM f s = .ok s') : P s' := by
  induction l generalizing s with
  | nil => exact Except.ok.inj hf ▸ h
  | cons a l ih =>
    rw [List.foldlM_cons] at hf
    obtain ⟨s₁, hs₁, hf⟩ := bind_eq_ok.mp hf
    refine ih ?_ (hstep s a s₁ List.mem_cons_self h hs₁) hf
    exact fun s b s' hb => hstep s b s' (List.mem_cons_of_mem a hb)

theorem mapM_eq_ok {f : α → Except ε β} {l : List α} {r : List β} (h : l.mapM f = .ok r) :
    r.length = l.length ∧ ∀ (i : Nat) a, l[i]? = some a → ∃ b, f a = .ok b ∧ r[i]? = some b := by
  induction l generalizing r with
  | nil =>
    obtain rfl := Except.ok.inj h
    simp
  | cons a l ih =>
    rw [List.mapM_cons] at h
    obtain ⟨b, hb, h⟩ := bind_eq_ok.mp h
    obtain ⟨r', hr', h⟩ := bind_eq_ok.mp h
    obtain rfl := Except.ok.inj h
    obtain ⟨hlength, hall⟩ := ih hr'
    refine ⟨by simp [hlength], ?_⟩
    intro i a' hi
    cases i with
    | zero =>
      obtain rfl : a = a' := by simpa using hi
      exact ⟨b, hb, rfl⟩
    | succ i => exact hall i a' (by simpa using hi)

theorem exists_of_mem_mapM {f : α → Except ε β} {l : List α} {r : List β} (h : l.mapM f = .ok r)
    {b : β} (hb : b ∈ r) : ∃ a ∈ l, f a = .ok b := by
  obtain ⟨hlength, hall⟩ := mapM_eq_ok h
  obtain ⟨i, hi, rfl⟩ := List.getElem_of_mem hb
  obtain ⟨b, hb, hget⟩ := hall i _ (List.getElem?_eq_getElem (hlength ▸ hi))
  rw [List.getElem?_eq_getElem hi] at hget
  exact ⟨_, List.getElem_mem _, Option.some.inj hget ▸ hb⟩

/-- What has a result for each of some inputs has the same for all of them. -/
theorem mapM_of_imp {f g : α → Except ε β} {l : List α} {r : List β}
    (hfg : ∀ a ∈ l, ∀ b, f a = .ok b → g a = .ok b) (h : l.mapM f = .ok r) : l.mapM g = .ok r := by
  induction l generalizing r with
  | nil => exact h
  | cons a l ih =>
    obtain ⟨ha, hl⟩ := List.forall_mem_cons.mp hfg
    rw [List.mapM_cons] at h ⊢
    obtain ⟨b, hb, h⟩ := bind_eq_ok.mp h
    obtain ⟨r', hr', h⟩ := bind_eq_ok.mp h
    rw [ha b hb, ok_bind, ih hl hr', ok_bind]
    exact h

theorem eq_ok_of_toOption {x : Except ε α} {a : α} (h : x.toOption = some a) : x = .ok a := by
  cases x with
  | error e => simp [Except.toOption] at h
  | ok b => simpa [Except.toOption] using h

theorem exists_eq_ok_of_isSome {x : Except ε α} (h : x.toOption.isSome = true) :
    ∃ a, x = .ok a := by
  obtain ⟨a, ha⟩ := Option.isSome_iff_exists.mp h
  exact ⟨a, eq_ok_of_toOption ha⟩

theorem exists_eq_error_of_isNone {x : Except ε α} (h : x.toOption.isNone = true) :
    ∃ e, x = .error e := by
  cases x with
  | error e => exact ⟨e, rfl⟩
  | ok a => simp [Except.toOption] at h

end Toolchain6502
