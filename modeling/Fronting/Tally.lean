import Mathlib.Data.Finsupp.Weight
import Mathlib.Data.Nat.ModEq

/-!
# Counters that lag behind a total

An amount is first owed under some key and settled later. What has been settled and what is
still owed make up the total at any time, whatever the order in which the keys are settled;
both counters may wrap around at `m`.
-/

namespace Fronting

variable {κ : Type*} {m : ℕ} {owed owed' : κ → ℕ} {settled settled' total total' : ℕ} {k : κ}

/-- Only finitely many keys owe something, and that and what is settled make up the total. -/
def Tally (m : ℕ) (owed : κ → ℕ) (settled total : ℕ) : Prop :=
  ∃ F : κ →₀ ℕ, (∀ k, F k = owed k) ∧ settled + F.degree ≡ total [MOD m]

namespace Tally

theorem zero (howed : ∀ k, owed k = 0) (h : settled ≡ total [MOD m]) :
    Tally m owed settled total := by
  refine ⟨0, fun k => (howed k).symm, ?_⟩
  rwa [map_zero, Nat.add_zero]

theorem congr (h : Tally m owed settled total) (howed : ∀ k, owed' k = owed k)
    (hsettled : settled' ≡ settled [MOD m]) (htotal : total' ≡ total [MOD m]) :
    Tally m owed' settled' total' := by
  obtain ⟨F, hF, hsum⟩ := h
  refine ⟨F, fun k => (hF k).trans (howed k).symm, ?_⟩
  calc settled' + F.degree ≡ settled + F.degree [MOD m] := hsettled.add_right _
    _ ≡ total [MOD m] := hsum
    _ ≡ total' [MOD m] := htotal.symm

/-- The amounts of finitely many keys, with that of `k` replaced. -/
theorem exists_degree_set (F : κ →₀ ℕ) (k : κ) (n : ℕ) :
    ∃ G : κ →₀ ℕ, G k = n ∧ (∀ q, q ≠ k → G q = F q) ∧ G.degree + F k = F.degree + n := by
  classical
  refine ⟨F.erase k + Finsupp.single k n, by simp, fun q hq => by simp [hq], ?_⟩
  have hF : (F.erase k).degree + F k = F.degree := by
    conv_rhs => rw [← Finsupp.erase_add_single k F]
    rw [map_add, Finsupp.degree_single]
  rw [map_add, Finsupp.degree_single]
  omega

/-- The total grows by an amount that is owed at first. -/
theorem owe (h : Tally m owed settled total) (hkept : ∀ q, q ≠ k → owed' q = owed q)
    (hnone : owed k = 0) (htotal : total' ≡ total + owed' k [MOD m]) :
    Tally m owed' settled total' := by
  obtain ⟨F, hF, hsum⟩ := h
  obtain ⟨G, hGk, hG, hdegree⟩ := exists_degree_set F k (owed' k)
  refine ⟨G, fun q => ?_, ?_⟩
  · by_cases hq : q = k
    · rw [hq, hGk]
    · rw [hG q hq, hF, hkept q hq]
  · rw [hF, hnone, Nat.add_zero] at hdegree
    rw [hdegree, ← Nat.add_assoc]
    exact (hsum.add_right _).trans htotal.symm

/-- An amount that was owed is settled. -/
theorem settle (h : Tally m owed settled total) (hkept : ∀ q, q ≠ k → owed' q = owed q)
    (hnone : owed' k = 0) (hsettled : settled' ≡ settled + owed k [MOD m]) :
    Tally m owed' settled' total := by
  obtain ⟨F, hF, hsum⟩ := h
  obtain ⟨G, hGk, hG, hdegree⟩ := exists_degree_set F k (owed' k)
  refine ⟨G, fun q => ?_, ?_⟩
  · by_cases hq : q = k
    · rw [hq, hGk]
    · rw [hG q hq, hF, hkept q hq]
  · rw [hF, hnone, Nat.add_zero] at hdegree
    calc settled' + G.degree ≡ settled + owed k + G.degree [MOD m] := hsettled.add_right _
      _ = settled + F.degree := by omega
      _ ≡ total [MOD m] := hsum

theorem all_settled (h : Tally m owed settled total) (hnone : ∀ k, owed k = 0) :
    settled ≡ total [MOD m] := by
  obtain ⟨F, hF, hsum⟩ := h
  have hzero : F = 0 := Finsupp.ext fun k => (hF k).trans (hnone k)
  rwa [hzero, map_zero, Nat.add_zero] at hsum

end Tally
end Fronting
