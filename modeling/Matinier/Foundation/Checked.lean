import Mathlib.Data.List.Basic

/-!
# Checked computations

A transaction is a program in `Except ε`: it reads, checks and writes, and a
failed check abandons everything it did. The lemmas below turn the statement
that such a program succeeded into the conjunction of its checks, so that the
inversion of a whole program is one rewriting.
-/

namespace Matinier

variable {ε α β : Type}

/-- Continue only where the condition holds. -/
def ensure (condition : Prop) [Decidable condition] (error : ε) : Except ε Unit :=
  if condition then .ok () else .error error

/-- Continue only with a value that is present. -/
def require (value : Option α) (error : ε) : Except ε α :=
  match value with
  | some a => .ok a
  | none => .error error

@[simp] theorem ensure_eq_ok {condition : Prop} [Decidable condition] {error : ε} {u : Unit} :
    ensure condition error = .ok u ↔ condition := by
  unfold ensure
  split_ifs with h <;> simp [h]

@[simp] theorem ensure_eq_error {condition : Prop} [Decidable condition] {error e : ε} :
    ensure condition error = .error e ↔ ¬ condition ∧ error = e := by
  unfold ensure
  split_ifs with h <;> simp [h]

@[simp] theorem require_eq_ok {value : Option α} {error : ε} {a : α} :
    require value error = .ok a ↔ value = some a := by
  cases value <;> simp [require]

@[simp] theorem require_eq_error {value : Option α} {error e : ε} :
    require value error = .error e ↔ value = none ∧ error = e := by
  cases value <;> simp [require]

@[simp] theorem bind_eq_ok {x : Except ε α} {f : α → Except ε β} {b : β} :
    (x >>= f) = .ok b ↔ ∃ a, x = .ok a ∧ f a = .ok b := by
  cases x <;> simp [bind, Except.bind]

@[simp] theorem ok_bind {a : α} {f : α → Except ε β} : ((.ok a : Except ε α) >>= f) = f a := rfl

@[simp] theorem map_eq_ok {x : Except ε α} {f : α → β} {b : β} :
    (f <$> x) = .ok b ↔ ∃ a, x = .ok a ∧ f a = b := by
  cases x <;> simp [Functor.map, Except.map]

@[simp] theorem pure_eq_ok {a b : α} : (pure a : Except ε α) = .ok b ↔ a = b := by
  simp [pure, Except.pure]

@[simp] theorem mapError_eq_ok {ε' : Type} {x : Except ε α} {f : ε → ε'} {a : α} :
    x.mapError f = .ok a ↔ x = .ok a := by
  cases x <;> simp [Except.mapError]

theorem toOption_eq_some {x : Except ε α} {a : α} : x.toOption = some a ↔ x = .ok a := by
  cases x <;> simp [Except.toOption]

@[simp] theorem throw_eq_ok {e : ε} {a : α} : (throw e : Except ε α) = .ok a ↔ False := by
  simp [throw, throwThe, MonadExceptOf.throw]

/-- What each call of a function that returns has holds of everything a map of it returns. -/
theorem of_mem_mapM {f : α → Except ε β} {P : β → Prop} {l : List α} {l' : List β}
    (hf : ∀ a b, f a = .ok b → P b) (h : l.mapM f = .ok l') : ∀ b ∈ l', P b := by
  induction l generalizing l' with
  | nil =>
    cases h
    exact fun b hb => absurd hb List.not_mem_nil
  | cons a rest ih =>
    simp only [List.mapM_cons, bind_eq_ok, pure_eq_ok] at h
    obtain ⟨first, hfirst, later, hlater, rfl⟩ := h
    intro b hb
    rcases List.mem_cons.mp hb with rfl | hb
    · exact hf a _ hfirst
    · exact ih hlater b hb

theorem foldlM_invariant {f : β → α → Except ε β} {I : β → Prop} {l : List α} {b b' : β}
    (hstep : ∀ b a b', a ∈ l → I b → f b a = .ok b' → I b') (hb : I b)
    (h : l.foldlM f b = .ok b') : I b' := by
  induction l generalizing b with
  | nil =>
    cases h
    exact hb
  | cons a l ih =>
    rw [List.foldlM_cons, bind_eq_ok] at h
    obtain ⟨c, hc, h⟩ := h
    exact ih (fun b x b' hx => hstep b x b' (List.mem_cons_of_mem _ hx))
      (hstep b a c List.mem_cons_self hb hc) h

/-- A loop whose every step returns, and keeps what the next one needs, returns. -/
theorem foldlM_returns {f : β → α → Except ε β} {I : β → Prop} {l : List α} {b : β}
    (hstep : ∀ b a, a ∈ l → I b → ∃ b', f b a = .ok b' ∧ I b') (hb : I b) :
    ∃ b', l.foldlM f b = .ok b' ∧ I b' := by
  induction l generalizing b with
  | nil => exact ⟨b, rfl, hb⟩
  | cons a l ih =>
    obtain ⟨c, hc, hI⟩ := hstep b a List.mem_cons_self hb
    obtain ⟨b', h, hI'⟩ := ih (fun b x hx => hstep b x (List.mem_cons_of_mem _ hx)) hI
    exact ⟨b', by rw [List.foldlM_cons, bind_eq_ok]; exact ⟨c, hc, h⟩, hI'⟩

/-- A loop whose every step returns and reaches something no step gives up reaches it for
every element. -/
theorem foldlM_reaches {f : β → α → Except ε β} {I : β → Prop} {Q : α → β → Prop}
    {l : List α} {b : β}
    (hstep : ∀ b a, a ∈ l → I b → ∃ b', f b a = .ok b' ∧ I b' ∧ Q a b' ∧
      ∀ x, Q x b → Q x b') (hb : I b) :
    ∃ b', l.foldlM f b = .ok b' ∧ I b' ∧ (∀ a ∈ l, Q a b') ∧
      ∀ x, Q x b → Q x b' := by
  induction l generalizing b with
  | nil => exact ⟨b, rfl, hb, by simp, fun _ h => h⟩
  | cons a l ih =>
    obtain ⟨c, hc, hI, hafter, hkeep⟩ := hstep b a List.mem_cons_self hb
    obtain ⟨b', h, hI', hall, hkeep'⟩ := ih (fun b x hx => hstep b x (List.mem_cons_of_mem _ hx)) hI
    refine ⟨b', by rw [List.foldlM_cons, bind_eq_ok]; exact ⟨c, hc, h⟩, hI', ?_,
      fun x hx => hkeep' x (hkeep x hx)⟩
    intro x hx
    rcases List.mem_cons.mp hx with rfl | hx
    · exact hkeep' x hafter
    · exact hall x hx

/-- A loop over distinct keys does to each element what its own step does, where the
other steps leave that alone. -/
theorem foldlM_each {κ : Type} {g : α → κ} {f : β → α → Except ε β} {I : β → Prop}
    {P Q : α → β → Prop} {l : List α} {b : β} (hkeys : (l.map g).Nodup)
    (hstep : ∀ b a, a ∈ l → I b → P a b → ∃ b', f b a = .ok b' ∧ I b' ∧ Q a b' ∧
      ∀ x, g x ≠ g a → (P x b → P x b') ∧ (Q x b → Q x b'))
    (hb : I b) (hbefore : ∀ a ∈ l, P a b) :
    ∃ b', l.foldlM f b = .ok b' ∧ I b' ∧ (∀ a ∈ l, Q a b') ∧
      ∀ x, g x ∉ l.map g → (P x b → P x b') ∧ (Q x b → Q x b') := by
  induction l generalizing b with
  | nil => exact ⟨b, rfl, hb, by simp, fun x _ => ⟨id, id⟩⟩
  | cons a l ih =>
    rw [List.map_cons, List.nodup_cons] at hkeys
    have hne : ∀ x ∈ l, g x ≠ g a := fun x hx heq =>
      hkeys.1 (heq ▸ List.mem_map_of_mem hx)
    obtain ⟨c, hc, hI, hafter, hframe⟩ :=
      hstep b a List.mem_cons_self hb (hbefore a List.mem_cons_self)
    obtain ⟨b', h, hI', hall, hrest⟩ := ih hkeys.2
      (fun b x hx => hstep b x (List.mem_cons_of_mem _ hx)) hI
      (fun x hx => (hframe x (hne x hx)).1 (hbefore x (List.mem_cons_of_mem _ hx)))
    refine ⟨b', ?_, hI', ?_, ?_⟩
    · rw [List.foldlM_cons, bind_eq_ok]
      exact ⟨c, hc, h⟩
    · intro x hx
      rcases List.mem_cons.mp hx with rfl | hx
      · exact (hrest x hkeys.1).2 hafter
      · exact hall x hx
    · intro x hx
      rw [List.map_cons, List.mem_cons, not_or] at hx
      exact ⟨fun hP => (hrest x hx.2).1 ((hframe x hx.1).1 hP),
        fun hP => (hrest x hx.2).2 ((hframe x hx.1).2 hP)⟩

/-- Whatever the program raises has the property. -/
def Raises (P : ε → Prop) (x : Except ε α) : Prop := ∀ e, x = .error e → P e

section Raises

variable {P : ε → Prop}

@[simp] theorem raises_ok (a : α) : Raises P (.ok a : Except ε α) := nofun

@[simp] theorem raises_pure (a : α) : Raises P (pure a : Except ε α) := nofun

@[simp] theorem raises_error (e : ε) : Raises P (.error e : Except ε α) ↔ P e := by
  simp [Raises]

@[simp] theorem raises_ensure {condition : Prop} [Decidable condition] {error : ε} :
    Raises P (ensure condition error) ↔ (¬ condition → P error) := by
  simp [Raises]

@[simp] theorem raises_require {value : Option α} {error : ε} :
    Raises P (require value error) ↔ (value = none → P error) := by
  simp [Raises]

/-- A program raises what its first part raises, or what the rest does with its value. -/
@[simp] theorem raises_bind {x : Except ε α} {f : α → Except ε β} :
    Raises P (x >>= f) ↔ Raises P x ∧ ∀ a, x = .ok a → Raises P (f a) := by
  cases x <;> simp [Raises, bind, Except.bind]

@[simp] theorem raises_map {x : Except ε α} {f : α → β} :
    Raises P (f <$> x) ↔ Raises P x := by
  cases x <;> simp [Raises, Functor.map, Except.map]

@[simp] theorem raises_ite {condition : Prop} [Decidable condition] {x y : Except ε α} :
    Raises P (if condition then x else y) ↔
      (condition → Raises P x) ∧ (¬ condition → Raises P y) := by
  split_ifs with h <;> simp [h]

end Raises

/-- The program returns rather than raises. -/
def Succeeds (x : Except ε α) : Prop := ∃ a, x = .ok a

theorem succeeds_ok (a : α) : Succeeds (.ok a : Except ε α) := ⟨a, rfl⟩

end Matinier
