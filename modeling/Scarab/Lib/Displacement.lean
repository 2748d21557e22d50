import Mathlib.Data.List.Basic
import Mathlib.Logic.Function.Basic

/-! # Greedy placement with displacement

Items come one after another and take a slot that they can use: an empty one, or else the one
whose item has the highest rank, where that is above their own. An item that loses its slot is
not placed again. -/

namespace Scarab.Displacement

variable {ι κ : Type} [DecidableEq κ] {rank : ι → ℕ} {uses : ι → List κ} {sd sd' : κ → Option ι}
  {p q : ι} {done : List ι}

/-- The slot holds an item of lower rank than `q`. -/
def Below (rank : ι → ℕ) (sd : κ → Option ι) (q : ι) (f : κ) : Prop :=
  ∃ r, sd f = some r ∧ rank r < rank q

/-- What may happen when an item comes. -/
inductive Comes (rank : ι → ℕ) (uses : ι → List κ) (p : ι) (sd : κ → Option ι) : (κ → Option ι) → Prop
  | stays (h : ∀ f ∈ uses p, ∃ r, sd f = some r ∧ rank r ≤ rank p) : Comes rank uses p sd sd
  | takes (f : κ) (hf : f ∈ uses p) (hempty : sd f = none) :
      Comes rank uses p sd (Function.update sd f (some p))
  | displaces (f : κ) (q : ι) (hf : f ∈ uses p) (hq : sd f = some q) (hlt : rank p < rank q)
      (hmax : ∀ g ∈ uses p, ∃ r, sd g = some r ∧ rank r ≤ rank q) :
      Comes rank uses p sd (Function.update sd f (some p))

/-- The item came later, with lower rank, and every slot that both can use is below `q`. -/
def DisplacedBy (rank : ι → ℕ) (uses : ι → List κ) (sd : κ → Option ι) (q p : ι) : Prop :=
  rank p < rank q ∧ (∃ f ∈ uses p, f ∈ uses q) ∧ ∀ f ∈ uses p, f ∈ uses q → Below rank sd q f

/-- What became of an item, when the items `later` came after it. -/
def Fate (rank : ι → ℕ) (uses : ι → List κ) (sd : κ → Option ι) (q : ι) (later : List ι) : Prop :=
  (∃ f, sd f = some q) ∨ (∀ f ∈ uses q, Below rank sd q f) ∨
    ∃ p ∈ later, DisplacedBy rank uses sd q p

/-- What holds when the items have come. -/
structure Placed (rank : ι → ℕ) (uses : ι → List κ) (sd : κ → Option ι) (done : List ι) : Prop where
  slot : ∀ f p, sd f = some p → p ∈ done ∧ f ∈ uses p
  inj : ∀ f g p, sd f = some p → sd g = some p → f = g
  fate : ∀ pre q later, done = pre ++ q :: later → Fate rank uses sd q later

omit [DecidableEq κ] in
theorem Placed.empty (h : ∀ f, sd f = none) : Placed rank uses sd [] where
  slot f p hp := by simp [h] at hp
  inj f g p hp := by simp [h] at hp
  fate pre q later hsplit := by simp at hsplit

/-- A slot never goes up, and never becomes empty again. -/
theorem Comes.below (h : Comes rank uses p sd sd') {f : κ} (hf : Below rank sd q f) :
    Below rank sd' q f := by
  obtain ⟨r, hr, hlt⟩ := hf
  cases h with
  | stays _ => exact ⟨r, hr, hlt⟩
  | takes g _ hempty =>
      have hne : f ≠ g := by
        rintro rfl
        rw [hempty] at hr
        cases hr
      exact ⟨r, by rw [Function.update_of_ne hne, hr], hlt⟩
  | displaces g y _ hy hup _ =>
      by_cases hfg : f = g
      · subst hfg
        obtain rfl : y = r := Option.some.inj (hy.symm.trans hr)
        exact ⟨p, Function.update_self .., Nat.lt_trans hup hlt⟩
      · exact ⟨r, by rw [Function.update_of_ne hfg, hr], hlt⟩

theorem Comes.displacedBy {r : ι} (h : Comes rank uses p sd sd') (hd : DisplacedBy rank uses sd q r) :
    DisplacedBy rank uses sd' q r :=
  ⟨hd.1, hd.2.1, fun f hf hfq => h.below (hd.2.2 f hf hfq)⟩

/-- The new item is in at most one slot, and the others are where they were. -/
theorem Comes.slot (h : Comes rank uses p sd sd') (hnew : ∀ f, sd f ≠ some p) (f : κ) (q : ι)
    (hq : sd' f = some q) : q ≠ p ∧ sd f = some q ∨ q = p ∧ f ∈ uses p ∧ ∀ g, sd' g = some p → g = f := by
  have hupdate : ∀ slot ∈ uses p, sd' = Function.update sd slot (some p) →
      q ≠ p ∧ sd f = some q ∨ q = p ∧ f ∈ uses p ∧ ∀ g, sd' g = some p → g = f := by
    intro slot hslot hsd
    subst hsd
    by_cases hf : f = slot
    · subst hf
      rw [Function.update_self] at hq
      refine .inr ⟨(Option.some.inj hq).symm, hslot, fun g hg => ?_⟩
      by_contra hne
      rw [Function.update_of_ne hne] at hg
      exact hnew g hg
    · rw [Function.update_of_ne hf] at hq
      exact .inl ⟨fun heq => hnew f (heq ▸ hq), hq⟩
  cases h with
  | stays _ => exact .inl ⟨fun heq => hnew f (heq ▸ hq), hq⟩
  | takes slot hslot _ => exact hupdate slot hslot rfl
  | displaces slot _ hslot _ _ _ => exact hupdate slot hslot rfl

/-- An item that came before is still placed, or was displaced by the new one. -/
theorem Comes.keeps (h : Comes rank uses p sd sd') (hinj : ∀ f g r, sd f = some r → sd g = some r → f = g)
    (huses : ∀ f r, sd f = some r → f ∈ uses r) (hdiff : ∀ f r, sd f = some r → rank r = rank q → r = q)
    {f : κ} (hf : sd f = some q) : (∃ g, sd' g = some q) ∨ DisplacedBy rank uses sd' q p := by
  cases h with
  | stays _ => exact .inl ⟨f, hf⟩
  | takes g _ hempty =>
      have hne : f ≠ g := by
        rintro rfl
        rw [hempty] at hf
        cases hf
      exact .inl ⟨f, by rw [Function.update_of_ne hne, hf]⟩
  | displaces g y hg hy hup hmax =>
      by_cases hfg : f = g
      · subst hfg
        obtain rfl : y = q := Option.some.inj (hy.symm.trans hf)
        refine .inr ⟨hup, ⟨f, hg, huses f y hf⟩, fun k hk _ => ?_⟩
        by_cases hkf : k = f
        · exact ⟨p, by rw [hkf, Function.update_self], hup⟩
        · obtain ⟨r, hr, hle⟩ := hmax k hk
          refine ⟨r, by rw [Function.update_of_ne hkf, hr], Nat.lt_of_le_of_ne hle fun heq => ?_⟩
          rw [hdiff k r hr heq] at hr
          exact hkf (hinj k f y hr hf)
      · exact .inl ⟨f, by rw [Function.update_of_ne hfg, hf]⟩

/-- One more item. -/
theorem Placed.comes (h : Placed rank uses sd done) (hcomes : Comes rank uses p sd sd') (hp : p ∉ done)
    (hrank : ∀ q ∈ done ++ [p], ∀ r ∈ done ++ [p], rank q = rank r → q = r) :
    Placed rank uses sd' (done ++ [p]) := by
  have hnew : ∀ f, sd f ≠ some p := fun f hf => hp (h.slot f p hf).1
  refine ⟨fun f q hq => ?_, fun f g q hf hg => ?_, fun pre q later hsplit => ?_⟩
  · cases hcomes.slot hnew f q hq with
    | inl hold => exact ⟨List.mem_append_left _ (h.slot f q hold.2).1, (h.slot f q hold.2).2⟩
    | inr hnow =>
        obtain ⟨rfl, hf, _⟩ := hnow
        exact ⟨by simp, hf⟩
  · cases hcomes.slot hnew f q hf with
    | inl hold =>
        cases hcomes.slot hnew g q hg with
        | inl hold' => exact h.inj f g q hold.2 hold'.2
        | inr hnow => exact absurd hnow.1 hold.1
    | inr hnow =>
        obtain ⟨rfl, _, honly⟩ := hnow
        exact (honly g hg).symm
  · cases List.eq_nil_or_concat later with
    | inl hlast =>
        -- the new item itself
        subst hlast
        obtain ⟨rfl, hpq⟩ := List.append_inj' hsplit rfl
        obtain rfl : p = q := by simpa using hpq
        cases hcomes with
        | stays hheld =>
            refine .inr (.inl fun f hf => ?_)
            obtain ⟨r, hr, hle⟩ := hheld f hf
            refine ⟨r, hr, Nat.lt_of_le_of_ne hle fun heq => hnew f ?_⟩
            rw [hr, hrank r (List.mem_append_left _ (h.slot f r hr).1) p (by simp) heq]
        | takes f hf _ => exact .inl ⟨f, Function.update_self ..⟩
        | displaces f _ hf _ _ _ => exact .inl ⟨f, Function.update_self ..⟩
    | inr hmore =>
        obtain ⟨later', last, rfl⟩ := hmore
        have hsplit' : done ++ [p] = (pre ++ q :: later') ++ [last] := by
          rw [hsplit]
          simp
        obtain ⟨rfl, hpl⟩ := List.append_inj' hsplit' rfl
        obtain rfl : p = last := by simpa using hpl
        have hq : q ∈ pre ++ q :: later' := by simp
        rcases h.fate pre q later' rfl with hplaced | hheld | hdisplaced
        · obtain ⟨f, hf⟩ := hplaced
          have hkeeps := hcomes.keeps (q := q) h.inj (fun f r hr => (h.slot f r hr).2)
            (fun f r hr heq => hrank r (List.mem_append_left _ (h.slot f r hr).1) q
              (List.mem_append_left _ hq) heq) hf
          cases hkeeps with
          | inl hstill => exact .inl hstill
          | inr hnow => exact .inr (.inr ⟨p, by simp, hnow⟩)
        · exact .inr (.inl fun f hf => hcomes.below (hheld f hf))
        · obtain ⟨r, hr, hby⟩ := hdisplaced
          exact .inr (.inr ⟨r, by simp [hr], hcomes.displacedBy hby⟩)

end Scarab.Displacement
