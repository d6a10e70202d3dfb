import CrediGuard.Loan.Amounts

/-!
What the schema of a create request admits against what the columns hold.

The schema has no least amount, no greatest income and no longest key, and rounding
moves a value across the bound zero. Both descriptions agree between half a cent
and what the columns can hold.
-/

namespace CrediGuard.Loan
open ReadCommitted LoanRepository

/-- The bounds of `CreateLoanApplicationRequest`, of a stored row. -/
structure WithinBounds (m : LoanApplicationModel) : Prop where
  amount_gt : 0 < m.amount.toRat
  amount_le : m.amount.toRat ≤ 200000
  monthlyIncome_gt : 0 < m.monthlyIncome.toRat
  termMonths : 3 ≤ m.termMonths ∧ m.termMonths ≤ 60
  applicantAge : 18 ≤ m.applicantAge ∧ m.applicantAge ≤ 75

/-- No `save` of the call's loan fails on a column, and the row it leaves is within bounds. -/
structure Storable (c : CreateCall) : Prop where
  fits : ∀ t w w', save t c.loan w ≠ .raises .dataError w'
  valid : ∀ t w w', save t c.loan w = .returns () w' → ∃ m,
    w'.loans.visible t = w.loans.visible t ++ [m] ∧ WithinBounds m

/-- From half a cent up to what `NUMERIC(12, 2)` holds. -/
structure FitsColumns (c : CreateCall) : Prop where
  amount : 1 / 200 ≤ c.request.amount.toRat
  monthlyIncome : 1 / 200 ≤ c.request.monthlyIncome.toRat
  monthlyIncome_lt : c.request.monthlyIncome.toRat < 10 ^ 10 - 1 / 200
  idempotencyKey : ∀ key ∈ c.idempotencyKey, key.length ≤ 255

section Lemmas
variable {c : CreateCall} {m : LoanApplicationModel} {d : Decimal}

theorem rounded_pos_iff (h : 0 < d.toRat) :
    0 < (⟨d.roundedCoeff 2, -2⟩ : Decimal).toRat ↔ 1 / 200 ≤ d.toRat := by
  have hunit := Decimal.toRat_of_scale (d.roundedCoeff 2) 2
  have hleast := Decimal.le_roundedCoeff_iff 2 h 1
  norm_num at hunit hleast
  rw [hunit]
  constructor
  · intro hpos
    have hcoeff : (0 : ℚ) < d.roundedCoeff 2 := by linarith
    have hone : 1 ≤ d.roundedCoeff 2 := by exact_mod_cast hcoeff
    have := hleast.mp hone
    linarith
  · intro hhalf
    have hone : 1 ≤ d.roundedCoeff 2 := hleast.mpr (by linarith)
    have : (1 : ℚ) ≤ d.roundedCoeff 2 := by exact_mod_cast hone
    linarith

/-- A bound in whole cents survives the rounding. -/
theorem rounded_le (h : 0 < d.toRat) {bound : Int} (hle : d.toRat ≤ bound) :
    (⟨d.roundedCoeff 2, -2⟩ : Decimal).toRat ≤ bound := by
  have hunit := Decimal.toRat_of_scale (d.roundedCoeff 2) 2
  have hcoeff : d.roundedCoeff 2 ≤ bound * 100 := by
    rw [Decimal.roundedCoeff_le_iff 2 h]
    push_cast
    linarith
  have : (d.roundedCoeff 2 : ℚ) ≤ bound * 100 := by exact_mod_cast hcoeff
  norm_num at hunit
  rw [hunit]
  linarith

theorem toNumeric_isSome_iff (h : 0 < d.toRat) :
    (∃ a, d.toNumeric 12 2 = some a) ↔ d.toRat < 10 ^ 10 - 1 / 200 := by
  have hgreatest := Decimal.roundedCoeff_le_iff 2 h (10 ^ 12 - 1)
  have hnonneg := (Decimal.le_roundedCoeff_iff 2 h 0).mpr (by
    push_cast
    linarith)
  norm_num at hgreatest
  constructor
  · intro hfits
    obtain ⟨a, ha⟩ := hfits
    have hlt := (Decimal.toNumeric_eq_some_iff.mp ha).2
    have := hgreatest.mp (by omega)
    linarith
  · intro hlt
    have := hgreatest.mpr (by linarith)
    exact ⟨_, Decimal.toNumeric_eq_some_iff.mpr ⟨rfl, by omega⟩⟩

theorem fitsInteger_of_le {n : Int} (h : 0 ≤ n ∧ n ≤ 75) : fitsInteger n = true := by
  simp only [fitsInteger, decide_eq_true_eq]
  omega

/-- Of the columns only the income and the key can be too small for a call. -/
theorem toModel_isSome_iff (c : CreateCall) : (∃ m, toModel c.loan = some m) ↔
    c.request.monthlyIncome.toRat < 10 ^ 10 - 1 / 200 ∧
      ∀ key ∈ c.idempotencyKey, key.length ≤ 255 := by
  obtain ⟨amount, hamount⟩ := (toNumeric_isSome_iff c.request.amount_gt).mpr (by
    have := c.request.amount_le
    linarith)
  have hterm : fitsInteger c.request.termMonths = true := by
    have := c.request.termMonths_bounds
    exact fitsInteger_of_le (by omega)
  have hage : fitsInteger c.request.applicantAge = true := by
    have := c.request.applicantAge_bounds
    exact fitsInteger_of_le (by omega)
  rw [← toNumeric_isSome_iff c.request.monthlyIncome_gt]
  simp only [toModel, CreateCall.loan, CreateCall.draft, hamount, hterm, hage,
    Option.bind_eq_bind, Option.bind_some, Option.bind_eq_some_iff, Bool.and_self, Bool.true_and,
    Option.ite_none_right_eq_some, Option.some.injEq, Option.all_eq_true, decide_eq_true_eq]
  constructor
  · intro h
    obtain ⟨m, income, hincome, hkey, _⟩ := h
    exact ⟨⟨income, hincome⟩, hkey⟩
  · intro h
    obtain ⟨⟨income, hincome⟩, hkey⟩ := h
    exact ⟨_, income, hincome, hkey, rfl⟩

/-- A row of a call is within bounds just if neither amount rounds to nothing. -/
theorem withinBounds_iff (h : toModel c.loan = some m) :
    WithinBounds m ↔ 1 / 200 ≤ c.request.amount.toRat ∧
      1 / 200 ≤ c.request.monthlyIncome.toRat := by
  obtain ⟨hamount, hincome⟩ := toModel_amounts h
  obtain ⟨_, _, _, _, hterm, hage⟩ := toModel_eq_some h
  rw [← rounded_pos_iff c.request.amount_gt, ← rounded_pos_iff c.request.monthlyIncome_gt]
  constructor
  · intro hbounds
    exact ⟨hamount ▸ hbounds.amount_gt, hincome ▸ hbounds.monthlyIncome_gt⟩
  · intro hpos
    refine ⟨hamount ▸ hpos.1, ?_, hincome ▸ hpos.2, ?_, ?_⟩
    · rw [hamount]
      have hle : c.request.amount.toRat ≤ (200000 : Int) := by exact_mod_cast c.request.amount_le
      exact_mod_cast rounded_le c.request.amount_gt hle
    · rw [hterm]
      exact c.request.termMonths_bounds
    · rw [hage]
      exact c.request.applicantAge_bounds

/-- With no row in the way, a loan that fits the columns is stored. -/
theorem save_of_empty {loan : LoanApplication} (h : toModel loan = some m) :
    ∃ w', save (.request 0) loan State.init.world = .returns () w' ∧
      w'.loans.visible (.request 0) = [m] := by
  simp only [save, h]
  exact ⟨_, rfl, rfl⟩

end Lemmas

section Main

/-- A validated call is stored within bounds just if it fits the columns. -/
theorem storable_iff (c : CreateCall) : Storable c ↔ FitsColumns c := by
  constructor
  · intro h
    cases hm : toModel c.loan with
    | none =>
        have hfails : save (.request 0) c.loan State.init.world =
            .raises .dataError State.init.world := by
          simp only [save, hm]
        exact absurd hfails (h.fits _ _ _)
    | some m =>
        obtain ⟨w', hsave, hvisible⟩ := save_of_empty hm
        obtain ⟨m', hvisible', hbounds⟩ := h.valid _ _ _ hsave
        rw [hvisible] at hvisible'
        obtain rfl : m = m' := List.head_eq_of_cons_eq hvisible'
        obtain ⟨hlt, hkey⟩ := (toModel_isSome_iff c).mp ⟨m, hm⟩
        obtain ⟨hamount, hincome⟩ := (withinBounds_iff hm).mp hbounds
        exact ⟨hamount, hincome, hlt, hkey⟩
  · intro h
    obtain ⟨m, hm⟩ := (toModel_isSome_iff c).mpr ⟨h.monthlyIncome_lt, h.idempotencyKey⟩
    have hbounds := (withinBounds_iff hm).mpr ⟨h.amount, h.monthlyIncome⟩
    refine ⟨?_, ?_⟩
    · intro t w w' hsave
      simp only [save, hm] at hsave
      cases hinsert : w.loans.insert LoanApplicationModel.clash t m with
      | waits =>
          rw [hinsert] at hsave
          contradiction
      | violates =>
          rw [hinsert] at hsave
          injection hsave with herror
          contradiction
      | done loans =>
          rw [hinsert] at hsave
          contradiction
    · intro t w w' hsave
      have hensures := save_ensures (t := t) (w := w) c.loan
      rw [Stmt.Ensures, hsave] at hensures
      obtain ⟨m', loans, hm', hinsert, rfl⟩ := hensures
      obtain rfl := Option.some.inj (hm'.symm.trans hm)
      refine ⟨m', ?_, hbounds⟩
      rw [(Table.insert_eq_done hinsert).1, Table.visible_write_self]
      rfl

/-- A call for a tenth of a cent. -/
def tenthCent : CreateCall :=
  { CreateCall.sample ⟨100⟩ none 1 with
    request := {
      (CreateCall.sample ⟨100⟩ none 1).request with
      amount := ⟨1, -3⟩
      amount_gt := by decide +kernel
      amount_le := by decide +kernel } }

theorem tenthCent_not_storable : ¬ Storable tenthCent := by
  intro h
  have hm : ∃ m, toModel tenthCent.loan = some m ∧ m.amount = ⟨0, -2⟩ := ⟨_, rfl, by decide⟩
  obtain ⟨m, hm, hamount⟩ := hm
  obtain ⟨w', hsave, hvisible⟩ := save_of_empty hm
  obtain ⟨m', hvisible', hbounds⟩ := h.valid _ _ _ hsave
  rw [hvisible] at hvisible'
  obtain rfl : m = m' := List.head_eq_of_cons_eq hvisible'
  have hpos := hbounds.amount_gt
  rw [hamount] at hpos
  exact absurd hpos (by decide +kernel)

end Main

end CrediGuard.Loan
