import Mathlib.Logic.Relation
import Scarab.Prefetcher.Types

/-! # Asking for prefetches

What the prefetchers share: the request they hand to `pref_addto_ul1req_queue_set`, an
arbitrary queue that answers it, and the entry of a table that is given up for a new one. -/

namespace Scarab

/-- The arguments of `pref_addto_ul1req_queue_set`. -/
structure Ul1Request where
  procId : Uns8
  lineIndex : Addr
  prefetcherId : Uns8
  distance : Uns
  loadPC : Addr
  globalHist : Uns
  bw : Bool
  deriving DecidableEq, Repr

/-- The arguments of `pref_addto_ul1req_queue`. -/
def Ul1Request.plain (procId : Uns8) (lineIndex : Addr) (prefetcherId : Uns8) : Ul1Request :=
  ⟨procId, lineIndex, prefetcherId, 0, 0, 0, false⟩

/-- A request queue: the `Flag` that is returned, and the queue afterwards. -/
abbrev Ul1Queue (κ : Type) := Ul1Request → κ → Bool × κ

/-- A line of a core, by its index. -/
def LineOf (log2Line : ℕ) (procId : Uns8) (lineIndex : Addr) : Prop :=
  procId.setWidth 64 = (lineIndex <<< log2Line) >>> 58

instance (log2Line : ℕ) (procId : Uns8) (lineIndex : Addr) :
    Decidable (LineOf log2Line procId lineIndex) :=
  inferInstanceAs (Decidable (_ = _))

/-- A request for a line of the core, under the name of the core. -/
def Ul1Request.OnBehalfOf (req : Ul1Request) (log2Line : ℕ) (procId : Uns8) : Prop :=
  req.procId = procId ∧ LineOf log2Line procId req.lineIndex

/-! ## Queues after some requests -/

section

variable {κ : Type} {addto : Ul1Queue κ} {Good : Ul1Request → Prop}

/-- The queue only changed by requests of a kind. -/
def AsksOnly (addto : Ul1Queue κ) (Good : Ul1Request → Prop) : κ → κ → Prop :=
  Relation.ReflTransGen fun k k' => ∃ req, Good req ∧ (addto req k).2 = k'

theorem AsksOnly.refl (k : κ) : AsksOnly addto Good k k := Relation.ReflTransGen.refl

theorem AsksOnly.head {req : Ul1Request} {k k' : κ} (hreq : Good req)
    (h : AsksOnly addto Good (addto req k).2 k') : AsksOnly addto Good k k' :=
  Relation.ReflTransGen.head ⟨req, hreq, rfl⟩ h

theorem AsksOnly.trans {k₁ k₂ k₃ : κ} (h₁ : AsksOnly addto Good k₁ k₂)
    (h₂ : AsksOnly addto Good k₂ k₃) : AsksOnly addto Good k₁ k₃ :=
  Relation.ReflTransGen.trans h₁ h₂

/-- What every request of the kind preserves is preserved. -/
theorem AsksOnly.invariant {I : κ → Prop} {k k' : κ} (h : AsksOnly addto Good k k')
    (hstep : ∀ req k, Good req → I k → I (addto req k).2) (hk : I k) : I k' := by
  induction h with
  | refl => exact hk
  | tail _ hask ih =>
      obtain ⟨req, hgood, rfl⟩ := hask
      exact hstep req _ hgood ih

end

/-! ## Tables -/

/-- The search for the entry to give up: the first unused one ends it, otherwise the
one with the highest `last_access` is kept, and the first of these. -/
def victimFrom (valid : ℕ → Bool) (lastAccess : ℕ → Uns) : List ℕ → Option ℕ → Option ℕ
  | [], best => best
  | ii :: rest, best =>
      if valid ii then
        match best with
        | none => victimFrom valid lastAccess rest (some ii)
        | some b =>
            victimFrom valid lastAccess rest (some (if lastAccess b < lastAccess ii then ii else b))
      else some ii

/-- The entry of a table of `n` that a new one replaces; none only if there are no entries. -/
def victim (n : ℕ) (valid : ℕ → Bool) (lastAccess : ℕ → Uns) : Option ℕ :=
  victimFrom valid lastAccess (List.range n) none

end Scarab
