import Mathlib.Data.Multiset.Filter
import Mathlib.Tactic

namespace Dexdo.OneShot

/-- Accounts that exist, and deploys on their way with what they carry. -/
structure Desk (α : Type) where
  accounts : List α
  flying : Multiset (α × ℕ)

variable {α κ : Type}

namespace Desk

/-- The account exists or a deploy for it is on its way. -/
def Seated (D : Desk α) (a : α) : Prop := a ∈ D.accounts ∨ ∃ n, (a, n) ∈ D.flying

end Desk

/-- A deploy is sent, fails, or makes its account, which did not exist; the label is what landed.
A deploy is only sent where no other account of its key has a seat, and within its cap. -/
inductive Move (key : α → κ) (cap : κ → ℕ → Prop) : Desk α → Option (α × ℕ) → Desk α → Prop
  | stay (D : Desk α) : Move key cap D none D
  | send (A : List α) (F : Multiset (α × ℕ)) (x : α × ℕ)
      (hseat : ∀ a, Desk.Seated ⟨A, F⟩ a → key a = key x.1 → a = x.1) (hcap : cap (key x.1) x.2) :
      Move key cap ⟨A, F⟩ none ⟨A, x ::ₘ F⟩
  | fail (A : List α) (F : Multiset (α × ℕ)) (x : α × ℕ) : Move key cap ⟨A, x ::ₘ F⟩ none ⟨A, F⟩
  | land (A : List α) (F : Multiset (α × ℕ)) (x : α × ℕ) (hx : x.1 ∉ A) :
      Move key cap ⟨A, x ::ₘ F⟩ (some x) ⟨x.1 :: A, F⟩

/-- What landed for a key. -/
def landed [DecidableEq κ] (key : α → κ) (k : κ) : Option (α × ℕ) → ℕ
  | none => 0
  | some x => if key x.1 = k then x.2 else 0

/-- No key has two seats, every account has a cap, and what landed for a key is within its cap. -/
structure Within (key : α → κ) (cap : κ → ℕ → Prop) (D : Desk α) (got : κ → ℕ) : Prop where
  nodup : D.accounts.Nodup
  accounts : ∀ a ∈ D.accounts, ∃ n, cap (key a) n
  sole : ∀ a b, D.Seated a → D.Seated b → key a = key b → a = b
  flying : ∀ x ∈ D.flying, cap (key x.1) x.2
  got : ∀ k, 0 < got k → (∃ a ∈ D.accounts, key a = k) ∧ cap k (got k)

variable {key : α → κ} {cap cap' : κ → ℕ → Prop} {D D' : Desk α} {got : κ → ℕ} {x : Option (α × ℕ)}

theorem Within.empty : Within key cap ⟨[], 0⟩ fun _ => 0 where
  nodup := List.nodup_nil
  accounts a ha := by cases ha
  sole a b ha := by
    rcases ha with ha | ⟨n, ha⟩
    · cases ha
    · exact absurd ha (Multiset.notMem_zero _)
  flying x hx := absurd hx (Multiset.notMem_zero x)
  got k hk := absurd hk (Nat.lt_irrefl 0)

theorem Within.mono (h : Within key cap D got) (hcap : ∀ k n, cap k n → cap' k n) :
    Within key cap' D got where
  nodup := h.nodup
  accounts a ha := (h.accounts a ha).imp fun _ => hcap _ _
  sole := h.sole
  flying y hy := hcap _ _ (h.flying y hy)
  got k hk := ⟨(h.got k hk).1, hcap _ _ (h.got k hk).2⟩

/-- There are no more accounts than keys with a cap. -/
theorem Within.length_le (h : Within key cap D got) {l : List κ} (hl : ∀ k n, cap k n → k ∈ l) :
    D.accounts.length ≤ l.length := by
  have hnodup : (D.accounts.map key).Nodup :=
    h.nodup.map_on fun a ha b hb hk => h.sole a b (.inl ha) (.inl hb) hk
  have hsub : D.accounts.map key ⊆ l := by
    intro k hk
    obtain ⟨a, ha, rfl⟩ := List.mem_map.mp hk
    obtain ⟨n, hn⟩ := h.accounts a ha
    exact hl _ n hn
  have hlen := (List.subperm_of_subset hnodup hsub).length_le
  rwa [List.length_map] at hlen

variable [DecidableEq κ]

/-- A move keeps what landed within the caps. -/
theorem Within.move (h : Within key cap D got) (hm : Move key cap D x D') :
    Within key cap D' fun k => got k + landed key k x := by
  cases hm with
  | stay => exact h
  | send A F x hseat hcap =>
    have hseats : ∀ a, Desk.Seated ⟨A, x ::ₘ F⟩ a → a = x.1 ∨ Desk.Seated ⟨A, F⟩ a := by
      rintro a (ha | ⟨n, ha⟩)
      · exact .inr (.inl ha)
      · rcases Multiset.mem_cons.mp ha with hx | ha
        · exact .inl (congrArg Prod.fst hx)
        · exact .inr (.inr ⟨n, ha⟩)
    refine ⟨h.nodup, h.accounts, ?_, ?_, h.got⟩
    · intro a b ha hb hk
      rcases hseats a ha with rfl | ha
      · rcases hseats b hb with rfl | hb
        · rfl
        · exact (hseat b hb hk.symm).symm
      · rcases hseats b hb with rfl | hb
        · exact hseat a ha hk
        · exact h.sole a b ha hb hk
    · intro y hy
      rcases Multiset.mem_cons.mp hy with rfl | hy
      · exact hcap
      · exact h.flying y hy
  | fail A F x =>
    refine ⟨h.nodup, h.accounts, ?_, fun y hy => h.flying y (Multiset.mem_cons_of_mem hy), h.got⟩
    have hseats : ∀ a, Desk.Seated ⟨A, F⟩ a → Desk.Seated ⟨A, x ::ₘ F⟩ a := by
      rintro a (ha | ⟨n, ha⟩)
      · exact .inl ha
      · exact .inr ⟨n, Multiset.mem_cons_of_mem ha⟩
    exact fun a b ha hb hk => h.sole a b (hseats a ha) (hseats b hb) hk
  | land A F x hx =>
    have hself : Desk.Seated ⟨A, x ::ₘ F⟩ x.1 := .inr ⟨x.2, Multiset.mem_cons_self x F⟩
    have hseats : ∀ a, Desk.Seated ⟨x.1 :: A, F⟩ a → Desk.Seated ⟨A, x ::ₘ F⟩ a := by
      rintro a (ha | ⟨n, ha⟩)
      · rcases List.mem_cons.mp ha with rfl | ha
        · exact hself
        · exact .inl ha
      · exact .inr ⟨n, Multiset.mem_cons_of_mem ha⟩
    refine ⟨List.nodup_cons.mpr ⟨hx, h.nodup⟩, ?_,
      fun a b ha hb hk => h.sole a b (hseats a ha) (hseats b hb) hk,
      fun y hy => h.flying y (Multiset.mem_cons_of_mem hy), ?_⟩
    · intro a ha
      rcases List.mem_cons.mp ha with rfl | ha
      · exact ⟨x.2, h.flying x (Multiset.mem_cons_self x F)⟩
      · exact h.accounts a ha
    intro k hk
    by_cases hkey : key x.1 = k
    · -- nothing had landed for the key: its account would be the one made now
      have hzero : got k = 0 := by
        by_contra hne
        obtain ⟨⟨a, ha, hak⟩, -⟩ := h.got k (Nat.pos_of_ne_zero hne)
        have heq : a = x.1 := h.sole a x.1 (.inl ha) hself (hak.trans hkey.symm)
        exact hx (heq ▸ ha)
      refine ⟨⟨x.1, List.mem_cons_self, hkey⟩, ?_⟩
      change cap k (got k + if key x.1 = k then x.2 else 0)
      rw [hzero, if_pos hkey, Nat.zero_add, ← hkey]
      exact h.flying x (Multiset.mem_cons_self x F)
    · have hsame : got k + landed key k (some x) = got k := by
        rw [landed, if_neg hkey, Nat.add_zero]
      dsimp only at hk ⊢
      rw [hsame] at hk ⊢
      obtain ⟨⟨a, ha, hak⟩, hc⟩ := h.got k hk
      exact ⟨⟨a, List.mem_cons_of_mem _ ha, hak⟩, hc⟩

end Dexdo.OneShot
