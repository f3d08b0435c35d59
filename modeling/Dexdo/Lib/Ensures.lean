import Mathlib.Data.List.Basic
import Mathlib.Data.Option.Basic

namespace Dexdo

variable {α β : Type} {x : Option α} {f : α → Option β} {P P' : α → Prop} {Q : β → Prop}

/-- A `do` block returns when each draw has a value and each check goes through. -/
theorem bind_iff :
    (∀ {α β : Type} (x : Option α) (f : α → Option β), (x >>= f) = x.bind f) ∧
      (∀ {α β : Type} {x : Option α} {f : α → Option β} {b : β},
        x.bind f = some b ↔ ∃ a, x = some a ∧ f a = some b) ∧
      (∀ {p : Prop} [Decidable p] {u : Unit}, (guard p : Option Unit) = some u ↔ p) ∧
      ∀ {p : Prop}, (∃ _ : Unit, p) ↔ p :=
  ⟨fun _ _ => rfl, Option.bind_eq_some_iff, Option.guard_eq_some' _, exists_const Unit⟩

theorem pure_iff :
    (∀ {α : Type} (a : α), (pure a : Option α) = some a) ∧
      ∀ {α : Type} {a b : α}, some a = some b ↔ a = b :=
  ⟨fun _ => rfl, Option.some_inj⟩

/-- Takes the first draw off a block that returned. -/
theorem of_bind {b : β} (h : x.bind f = some b) : ∃ a, x = some a ∧ f a = some b :=
  Option.bind_eq_some_iff.mp h

theorem of_guard {p : Prop} [Decidable p] {u : Unit} (h : (guard p : Option Unit) = some u) : p :=
  (Option.guard_eq_some' _).mp h

/-- The rest of a block that returned does not depend on its first draw, such as a check. -/
theorem of_pass {y : Option β} {b : β} (h : (x.bind fun _ => y) = some b) : y = some b := by
  obtain ⟨_, _, h⟩ := of_bind h
  exact h

/-- Partial correctness: if the program returns, its result satisfies `P`. -/
def Ensures (x : Option α) (P : α → Prop) : Prop := ∀ a, x = some a → P a

namespace Ensures

theorem pure {a : α} (h : P a) : Ensures (some a) P := by
  intro b hb
  cases hb
  exact h

theorem mono (h : Ensures x P) (hP : ∀ a, P a → P' a) : Ensures x P' := fun a ha => hP a (h a ha)

theorem and (h : Ensures x P) (h' : Ensures x P') : Ensures x fun a => P a ∧ P' a :=
  fun a ha => ⟨h a ha, h' a ha⟩

theorem bind (h : Ensures x P) (hf : ∀ a, P a → Ensures (f a) Q) : Ensures (x >>= f) Q := by
  intro b hb
  obtain ⟨a, ha, hb⟩ := of_bind hb
  exact hf a (h a ha) b hb

/-- The value in the middle does not matter. -/
theorem any (hf : ∀ a, Ensures (f a) Q) : Ensures (x >>= f) Q := by
  intro b hb
  obtain ⟨a, -, hb⟩ := of_bind hb
  exact hf a b hb

/-- After a check that went through. -/
theorem check {p : Prop} [Decidable p] {y : Option β} (h : p → Ensures y Q) :
    Ensures ((guard p : Option Unit) >>= fun _ => y) Q := by
  intro b hb
  obtain ⟨_, hp, hb⟩ := of_bind hb
  exact h ((Option.guard_eq_some' _).mp hp) b hb

theorem ite {c : Prop} [Decidable c] {y : Option α} (hx : c → Ensures x P)
    (hy : ¬ c → Ensures y P) : Ensures (if c then x else y) P := by
  split_ifs with h
  · exact hx h
  · exact hy h

/-- An invariant of a fold that may fail. -/
theorem foldlM {γ : Type} {g : α → γ → Option α} (hg : ∀ a c, P a → Ensures (g a c) P)
    {l : List γ} {a : α} (ha : P a) : Ensures (l.foldlM g a) P := by
  induction l generalizing a with
  | nil => exact .pure ha
  | cons c l ih =>
    rw [List.foldlM_cons]
    exact .bind (hg a c ha) fun b hb => ih hb

/-- A fold that may fail has run every one of its steps. -/
theorem foldlM_each {γ : Type} {Q : γ → Prop} {g : α → γ → Option α}
    (hg : ∀ a c, Ensures (g a c) fun _ => Q c) {l : List γ} {a : α} :
    Ensures (l.foldlM g a) fun _ => ∀ c ∈ l, Q c := by
  induction l generalizing a with
  | nil => exact .pure fun c hc => absurd hc List.not_mem_nil
  | cons c l ih =>
    rw [List.foldlM_cons]
    exact .bind (hg a c) fun b hc => ih.mono fun _ hl => List.forall_mem_cons.mpr ⟨hc, hl⟩

end Ensures

end Dexdo
