import Scarab.Bp.Crs.State
import Scarab.Lib.Loop

/-! # The loop of the recovery

`bp_crs_recover` turn by turn. The counter of its loop is a byte, and the number of entries is an
unsigned word. -/

namespace Scarab.Bp

/-! ## The loop -/

/-- A turn of the loop, or the assignments after it. -/
def recoverTurn (p : Params) : Uns8 × Crs → Except String ((Uns8 × Crs) ⊕ Crs)
  | (ii, crs) =>
      if ii.toNat < p.crsEntries then
        .ok (.inl (ii + 1, { crs with offPath := Function.update crs.offPath ii.toNat false }))
      else .ok (.inr { crs with tail := crs.tailSave, depth := crs.depthSave })

/-- `bp_crs_recover`, for as many turns as there is fuel. -/
def recoverLoop (p : Params) (crs : Crs) (fuel : ℕ) : Except String (Option Crs) :=
  Loop.loop (recoverTurn p) fuel (0, crs)

/-- No slot is off the path, and the tail and the depth are the saved ones. -/
structure Crs.Restored (n : ℕ) (crs crs' : Crs) : Prop where
  onPath : ∀ slot < n, crs'.offPath slot = false
  tail : crs'.tail = crs.tailSave
  depth : crs'.depth = crs.depthSave

variable {p : Params} {crs crs' : Crs}

/-! ## Few entries -/

/-- The stack when the slots below the counter are on the path. -/
def Crs.restoredBelow (crs : Crs) (n : ℕ) : Crs :=
  { crs with offPath := fun slot => if slot < n then false else crs.offPath slot }

theorem Crs.restoredBelow_update (crs : Crs) (n : ℕ) :
    { crs.restoredBelow n with offPath := Function.update (crs.restoredBelow n).offPath n false } =
      crs.restoredBelow (n + 1) := by
  unfold Crs.restoredBelow
  refine congrArg (fun offPath => { crs with offPath := offPath }) (funext fun slot => ?_)
  by_cases heq : slot = n
  · rw [heq, Function.update_self, if_pos (Nat.lt_succ_self n)]
  · rw [Function.update_of_ne heq]
    dsimp only
    by_cases hlt : slot < n
    · rw [if_pos hlt, if_pos (by omega)]
    · rw [if_neg hlt, if_neg (by omega)]

/-- The counter takes each value up to the number of entries once. -/
theorem recoverLoop_returns (hfew : p.crsEntries < 256) (crs : Crs) :
    Loop.Returns (recoverLoop p crs)
      { crs.restoredBelow p.crsEntries with tail := crs.tailSave, depth := crs.depthSave } := by
  have hrest : ∀ left ii, ii + left = p.crsEntries → Loop.Returns
      (fun fuel => Loop.loop (recoverTurn p) fuel (BitVec.ofNat 8 ii, crs.restoredBelow ii))
      { crs.restoredBelow p.crsEntries with tail := crs.tailSave, depth := crs.depthSave } := by
    intro left
    induction left with
    | zero =>
        rintro ii rfl
        refine Loop.returns_of_end ?_
        unfold recoverTurn
        dsimp only
        rw [BitVec.toNat_ofNat, Nat.mod_eq_of_lt (by omega), if_neg (by omega)]
        rfl
    | succ left ih =>
        intro ii hsum
        refine Loop.returns_of_turn ?_ (ih (ii + 1) (by omega))
        unfold recoverTurn
        dsimp only
        rw [BitVec.toNat_ofNat, Nat.mod_eq_of_lt (by omega), if_pos (by omega), Crs.restoredBelow_update,
          BitVec.ofNat_add]
        rfl
  exact hrest p.crsEntries 0 (by omega)

/-! ## From 256 entries on -/

/-- The counter is always below the number of entries. -/
theorem recoverLoop_forever (hmany : 256 ≤ p.crsEntries) (crs : Crs) : ¬ Loop.Returns (recoverLoop p crs) crs' := by
  refine Loop.not_returns_of_forever (I := fun _ => True) (fun s _ => ?_) trivial
  obtain ⟨ii, crs⟩ := s
  have hbyte := ii.isLt
  exact ⟨_, if_pos (by omega), trivial⟩

/-- The recovery of the model is the loop. -/
theorem bpCrsRecover_eq_ok_iff : bpCrsRecover p crs = .ok crs' ↔ Loop.Returns (recoverLoop p crs) crs' := by
  unfold bpCrsRecover
  by_cases hmany : 256 ≤ p.crsEntries
  · rw [if_pos hmany]
    constructor
    · intro h
      cases h
    · intro h
      exact (recoverLoop_forever hmany crs h).elim
  · have hreturns := recoverLoop_returns (Nat.lt_of_not_le hmany) crs
    rw [if_neg hmany]
    constructor
    · intro h
      cases h
      exact hreturns
    · intro h
      rw [h.unique hreturns]
      rfl

/-- The recovery ends and restores every slot exactly if the number of entries fits the counter. -/
theorem recoverLoop_restores_iff (p : Params) (crs : Crs) :
    (∃ crs', Loop.Returns (recoverLoop p crs) crs' ∧ crs.Restored p.crsEntries crs') ↔ p.crsEntries < 256 := by
  constructor
  · rintro ⟨crs', hreturns, -⟩
    by_contra hmany
    exact recoverLoop_forever (Nat.le_of_not_lt hmany) crs hreturns
  · intro hfew
    exact ⟨_, recoverLoop_returns hfew crs, fun slot hslot => if_pos hslot, rfl, rfl⟩

/-- With 256 entries the recovery of an empty stack does not end. -/
theorem recoverLoop_256 :
    ¬ ∀ k < 32, ∀ crs, ∃ crs', Loop.Returns (recoverLoop ⟨2 ^ k, 0, false⟩ crs) crs' ∧
      crs.Restored (2 ^ k) crs' := by
  intro hall
  obtain ⟨crs', hreturns, -⟩ := hall 8 (by decide) (bpInit ⟨256, 0, false⟩ fun _ => ⟨0, 0⟩)
  exact recoverLoop_forever (by decide) _ hreturns

end Scarab.Bp
