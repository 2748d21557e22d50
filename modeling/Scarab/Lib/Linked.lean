import Mathlib.Data.List.Basic
import Mathlib.Data.List.Nodup
import Mathlib.Logic.Function.Basic
import Scarab.Lib.Execution

/-! # Lists linked through pointers

A list lives in a function from each element to its successor, and starts at a head. Here is
what appending, pushing and unlinking do to such a list, and what the two loops of a program
over it compute: one that walks until it breaks off, and one that unlinks elements on its way. -/

namespace Scarab.Linked

variable {ι σ : Type} {ε : Type}

/-- The head and the successors. -/
structure Links (ι : Type) where
  head : Option ι
  next : ι → Option ι

/-- `*last`, where no `last` is the head. -/
def Links.get (k : Links ι) : Option ι → Option ι
  | none => k.head
  | some t => k.next t

/-- `*last = q`. -/
def Links.set [DecidableEq ι] (k : Links ι) (last q : Option ι) : Links ι :=
  match last with
  | none => { k with head := q }
  | some t => { k with next := Function.update k.next t q }

/-- `op->next = head; head = op`. -/
def Links.push [DecidableEq ι] (k : Links ι) (p : ι) : Links ι :=
  ⟨some p, Function.update k.next p k.head⟩

/-- `if(tail) tail->next = op; if(head == NULL) head = op; op->next = NULL`. -/
def Links.append [DecidableEq ι] (k : Links ι) (tail : Option ι) (p : ι) : Links ι where
  head := if k.head = none then some p else k.head
  next := Function.update
    (match tail with
      | none => k.next
      | some t => Function.update k.next t (some p)) p none

/-- Following the successors from `start` visits exactly the list. -/
def Chain (next : ι → Option ι) : Option ι → List ι → Prop
  | start, [] => start = none
  | start, p :: rest => start = some p ∧ Chain next (next p) rest

variable {next next' : ι → Option ι} {start : Option ι} {p : ι} {l rest : List ι}

@[simp] theorem chain_nil : Chain next start [] ↔ start = none := Iff.rfl

@[simp] theorem chain_cons : Chain next start (p :: rest) ↔ start = some p ∧ Chain next (next p) rest :=
  Iff.rfl

theorem Chain.head_eq (h : Chain next start l) : start = l.head? := by
  cases l with
  | nil => exact h
  | cons p rest => exact h.1

/-- There is one list from every start. -/
theorem Chain.unique {l' : List ι} (h : Chain next start l) (h' : Chain next start l') : l = l' := by
  induction l generalizing start l' with
  | nil =>
      cases l' with
      | nil => rfl
      | cons p' rest' => cases h.symm.trans h'.1
  | cons p rest ih =>
      cases l' with
      | nil => cases h'.symm.trans h.1
      | cons p' rest' =>
          have hp : p = p' := Option.some.inj (h.1.symm.trans h'.1)
          subst hp
          rw [ih h.2 h'.2]

/-- Successors of other elements do not matter. -/
theorem Chain.congr (h : Chain next start l) (hsame : ∀ q ∈ l, next' q = next q) :
    Chain next' start l := by
  induction l generalizing start with
  | nil => exact h
  | cons p rest ih =>
      refine ⟨h.1, ?_⟩
      rw [hsame p (by simp)]
      exact ih h.2 fun q hq => hsame q (by simp [hq])

theorem Chain.update (h : Chain next start l) [DecidableEq ι] (hp : p ∉ l) (q : Option ι) :
    Chain (Function.update next p q) start l :=
  h.congr fun r hr => Function.update_of_ne (show r ≠ p from fun heq => hp (heq ▸ hr)) ..

/-- The second part of a list starts where its first part points to. -/
theorem Chain.of_append {first : List ι} (h : Chain next start (first ++ l)) :
    Chain next ((⟨start, next⟩ : Links ι).get first.getLast?) l := by
  induction first generalizing start with
  | nil => exact h
  | cons p first ih =>
      have hrest := ih h.2
      cases first with
      | nil => exact hrest
      | cons q first =>
          rw [List.getLast?_cons_cons]
          obtain ⟨t, ht⟩ : ∃ t, (q :: first).getLast? = some t :=
            ⟨_, List.getLast?_eq_some_getLast (by simp)⟩
          rw [ht] at hrest ⊢
          exact hrest

/-- A new element in front. -/
theorem Chain.push [DecidableEq ι] {k : Links ι} (h : Chain k.next k.head l) (hp : p ∉ l) :
    Chain (k.push p).next (k.push p).head (p :: l) := by
  refine ⟨rfl, ?_⟩
  simp only [Links.push, Function.update_self]
  exact h.update hp k.head

/-- A new element at the end. -/
theorem Chain.append [DecidableEq ι] {k : Links ι} (h : Chain k.next k.head l) (hp : p ∉ l)
    (hnodup : l.Nodup) :
    Chain (k.append l.getLast? p).next (k.append l.getLast? p).head (l ++ [p]) := by
  obtain ⟨start, next⟩ := k
  simp only [Links.append] at h ⊢
  induction l generalizing start with
  | nil =>
      obtain rfl : start = none := h
      simp
  | cons q rest ih =>
      obtain ⟨rfl, hrest⟩ := h
      obtain ⟨hq, hnodup⟩ := List.nodup_cons.mp hnodup
      simp only [List.mem_cons, not_or] at hp
      refine ⟨by simp, ?_⟩
      have htail := ih hp.2 hnodup _ hrest
      cases rest with
      | nil =>
          have hnone : next q = none := hrest
          simp [ Function.update_of_ne (Ne.symm hp.1)]
      | cons r rest =>
          obtain ⟨hr, _⟩ := hrest
          have hlast : (q :: r :: rest).getLast? = (r :: rest).getLast? := List.getLast?_cons_cons
          obtain ⟨t, ht⟩ : ∃ t, (r :: rest).getLast? = some t := ⟨_, List.getLast?_eq_some_getLast (by simp)⟩
          have htmem : t ∈ r :: rest := List.mem_of_getLast? ht
          have hqt : q ≠ t := fun heq => hq (heq ▸ htmem)
          simp only [ht, hlast, hr] at htail ⊢
          simpa [Function.update_of_ne (Ne.symm hp.1), Function.update_of_ne hqt, hr] using htail

/-- The last element gets a successor, where another list starts. -/
theorem Chain.splice [DecidableEq ι] {q : Option ι} {t : ι} (h : Chain next start l) (hl : l.Nodup)
    (ht : l.getLast? = some t) (hrest : Chain next q rest) (htrest : t ∉ rest) :
    Chain (Function.update next t q) start (l ++ rest) := by
  induction l generalizing start with
  | nil => cases ht
  | cons p l ih =>
      obtain ⟨rfl, hnext⟩ := h
      obtain ⟨hp, hl⟩ := List.nodup_cons.mp hl
      refine ⟨rfl, ?_⟩
      cases l with
      | nil =>
          obtain rfl : p = t := by simpa using ht
          rw [Function.update_self]
          exact hrest.update htrest q
      | cons r l =>
          rw [List.getLast?_cons_cons] at ht
          have hpt : p ≠ t := fun heq => hp (heq ▸ List.mem_of_getLast? ht)
          rw [Function.update_of_ne hpt]
          exact ih hnext hl ht

/-- Elements in a row, each of which has the next one as its successor. -/
theorem Chain.range' {next : ℕ → Option ℕ} {rest : List ℕ} (first n : ℕ)
    (hstep : ∀ e, first ≤ e → e + 1 < first + (n + 1) → next e = some (e + 1))
    (hlast : Chain next (next (first + n)) rest) :
    Chain next (some first) (List.range' first (n + 1) ++ rest) := by
  induction n generalizing first with
  | zero => exact ⟨rfl, hlast⟩
  | succ n ih =>
      rw [List.range'_succ]
      refine ⟨rfl, ?_⟩
      rw [hstep first (Nat.le_refl _) (by omega)]
      refine ih (first + 1) (fun e he hlt => hstep e (by omega) (by omega)) ?_
      rw [Nat.add_right_comm]
      exact hlast

/-- The first elements on the way from `start`. -/
def following (next : ι → Option ι) : ℕ → Option ι → List ι
  | _, none => []
  | 0, some _ => []
  | n + 1, some p => p :: following next n (next p)

theorem Chain.following (h : Chain next start l) (n : ℕ) : following next n start = l.take n := by
  induction l generalizing start n with
  | nil =>
      obtain rfl : start = none := h
      cases n <;> rfl
  | cons p rest ih =>
      obtain ⟨rfl, hrest⟩ := h
      cases n with
      | zero => rfl
      | succ n => rw [Linked.following, ih hrest n, List.take_succ_cons]

/-! ## Walking -/

/-- `for(op = start; op; op = op->next)`, at most `n` times round. The body says whether to
break, and then the loop variable stays. -/
def walk (next : ι → Option ι) (body : σ → ι → Except ε (σ × Bool)) :
    ℕ → Option ι → σ → Except ε (Option ι × σ)
  | _, none, s => .ok (none, s)
  | 0, some p, s => .ok (some p, s)
  | n + 1, some p, s => do
      let (s, break?) ← body s p
      if break? then return (some p, s) else walk next body n (next p) s

/-- The same over a list; what is left of the list is returned. -/
def run (body : σ → ι → Except ε (σ × Bool)) : List ι → σ → Except ε (List ι × σ)
  | [], s => .ok ([], s)
  | p :: rest, s => do
      let (s, break?) ← body s p
      if break? then return (p :: rest, s) else run body rest s

theorem walk_eq (body : σ → ι → Except ε (σ × Bool)) (h : Chain next start l) (n : ℕ) (s : σ) :
    walk next body n start s =
      (fun out => ((out.1 ++ l.drop n).head?, out.2)) <$> run body (l.take n) s := by
  induction l generalizing start n s with
  | nil =>
      obtain rfl : start = none := h
      cases n <;> rfl
  | cons p rest ih =>
      obtain ⟨rfl, hrest⟩ := h
      cases n with
      | zero => rfl
      | succ n =>
          simp only [walk, List.take_succ_cons, run, List.drop_succ_cons]
          cases body s p with
          | error e => rfl
          | ok out =>
              obtain ⟨s, b⟩ := out
              cases b with
              | true => rfl
              | false => exact ih hrest n s

/-- With enough rounds, the whole list. -/
theorem walk_eq_run (body : σ → ι → Except ε (σ × Bool)) (h : Chain next start l) {n : ℕ}
    (hn : l.length ≤ n) (s : σ) :
    walk next body n start s = (fun out => (out.1.head?, out.2)) <$> run body l s := by
  rw [walk_eq body h, List.take_of_length_le hn, List.drop_of_length_le hn]
  simp only [List.append_nil]

/-- A body that never breaks. -/
theorem walk_eq_foldlM (f : σ → ι → Except ε σ) (h : Chain next start l) {n : ℕ} (hn : l.length ≤ n) (s : σ) :
    walk next (fun s p => (·, false) <$> f s p) n start s = (fun t => (none, t)) <$> l.foldlM f s := by
  induction l generalizing start n s with
  | nil =>
      obtain rfl : start = none := h
      cases n <;> rfl
  | cons p rest ih =>
      obtain ⟨rfl, hrest⟩ := h
      cases n with
      | zero => cases hn
      | succ n =>
          rw [walk, List.foldlM_cons]
          cases f s p with
          | error e => rfl
          | ok t => exact ih hrest (Nat.le_of_succ_le_succ hn) t

/-- A property of the state that the body keeps. -/
theorem walk_invariant {body : σ → ι → Except ε (σ × Bool)} {I : σ → Prop}
    (hbody : ∀ p s t b, I s → body s p = .ok (t, b) → I t) {n : ℕ} {s t : σ} {stop : Option ι}
    (hI : I s) (h : walk next body n start s = .ok (stop, t)) : I t := by
  induction n generalizing start s with
  | zero =>
      cases start with
      | none => cases h; exact hI
      | some p => cases h; exact hI
  | succ n ih =>
      cases start with
      | none => cases h; exact hI
      | some p =>
          rw [walk] at h
          obtain ⟨⟨m, b⟩, hm, h⟩ := Execution.bind_eq_ok.mp h
          have hIm := hbody p s m b hI hm
          cases b with
          | true => cases h; exact hIm
          | false => exact ih hIm h

/-- The walk fails where its body does. -/
theorem walk_eq_error {body : σ → ι → Except ε (σ × Bool)} {n : ℕ} {s : σ} {e : ε}
    (h : walk next body n start s = .error e) : ∃ s p, body s p = .error e := by
  induction n generalizing start s with
  | zero => cases start <;> cases h
  | succ n ih =>
      cases start with
      | none => cases h
      | some p =>
          rw [walk] at h
          rcases Execution.bind_eq_error.mp h with hbody | ⟨⟨m, b⟩, _, h⟩
          · exact ⟨s, p, hbody⟩
          · cases b with
            | true => cases h
            | false => exact ih h

/-- A property of what is left and of the state that the body keeps. -/
theorem run_invariant {body : σ → ι → Except ε (σ × Bool)} {I J : List ι → σ → Prop}
    (hgo : ∀ p rest s t, I (p :: rest) s → body s p = .ok (t, false) → I rest t)
    (hbreak : ∀ p rest s t, I (p :: rest) s → body s p = .ok (t, true) → J (p :: rest) t)
    (hend : ∀ s, I [] s → J [] s) {s t : σ} {left : List ι} (hI : I l s)
    (h : run body l s = .ok (left, t)) : J left t := by
  induction l generalizing s with
  | nil =>
      cases h
      exact hend _ hI
  | cons p rest ih =>
      simp only [run] at h
      obtain ⟨⟨m, b⟩, hm, h⟩ := Execution.bind_eq_ok.mp h
      cases b with
      | true =>
          cases h
          exact hbreak p rest s m hI hm
      | false => exact ih (hgo p rest s m hI hm) h

/-- What is left is an end of the list. -/
theorem run_suffix {body : σ → ι → Except ε (σ × Bool)} {s t : σ} {left : List ι}
    (h : run body l s = .ok (left, t)) : ∃ done, l = done ++ left := by
  induction l generalizing s with
  | nil =>
      cases h
      exact ⟨[], rfl⟩
  | cons p rest ih =>
      simp only [run] at h
      obtain ⟨⟨m, b⟩, _, h⟩ := Execution.bind_eq_ok.mp h
      cases b with
      | true =>
          cases h
          exact ⟨[], rfl⟩
      | false =>
          obtain ⟨done, hdone⟩ := ih h
          exact ⟨p :: done, by rw [hdone]; rfl⟩

/-! ## Unlinking -/

/-- `for(op = head, last = &head; op; op = op->next)`, which unlinks an element or moves `last`. -/
def unlink [DecidableEq ι] (drop : σ → ι → Bool) (onDrop onKeep : σ → ι → Except ε σ) :
    ℕ → Option ι → Option ι → Links ι → σ → Except ε (Links ι × σ)
  | _, none, _, k, s => .ok (k, s)
  | 0, some _, _, k, s => .ok (k, s)
  | n + 1, some p, last, k, s =>
      if drop s p then do
        let s ← onDrop s p
        unlink drop onDrop onKeep n (k.next p) last (k.set last (k.next p)) s
      else do
        let s ← onKeep s p
        unlink drop onDrop onKeep n (k.next p) (some p) k s

/-- The same over a list; what is kept is returned. -/
def sweep (drop : σ → ι → Bool) (onDrop onKeep : σ → ι → Except ε σ) :
    List ι → σ → Except ε (List ι × σ)
  | [], s => .ok ([], s)
  | p :: rest, s =>
      if drop s p then do
        let s ← onDrop s p
        sweep drop onDrop onKeep rest s
      else do
        let s ← onKeep s p
        let (kept, s) ← sweep drop onDrop onKeep rest s
        return (p :: kept, s)

/-- Unlinking the first element after `kept`. -/
theorem Chain.set_last [DecidableEq ι] {k : Links ι} {kept : List ι}
    (h : Chain k.next k.head (kept ++ p :: rest)) (hnodup : (kept ++ p :: rest).Nodup) :
    Chain (k.set kept.getLast? (k.next p)).next (k.set kept.getLast? (k.next p)).head (kept ++ rest) := by
  obtain ⟨head, next⟩ := k
  induction kept generalizing head with
  | nil =>
      obtain ⟨_, hrest⟩ := h
      exact hrest
  | cons q kept ih =>
      obtain ⟨rfl, hrest⟩ := h
      obtain ⟨hq, hnodup⟩ := List.nodup_cons.mp hnodup
      cases kept with
      | nil =>
          obtain ⟨_, htail⟩ := hrest
          refine ⟨rfl, ?_⟩
          simp only [List.getLast?_singleton, Links.set, Function.update_self]
          exact htail.update (fun hmem => hq (by simp [hmem])) _
      | cons r kept =>
          have hrec := ih hnodup (next q) hrest
          obtain ⟨t, ht⟩ : ∃ t, (r :: kept).getLast? = some t := ⟨_, List.getLast?_eq_some_getLast (by simp)⟩
          have hqt : q ≠ t := by
            rintro rfl
            exact hq (List.mem_append_left _ (List.mem_of_getLast? ht))
          simp only [List.getLast?_cons_cons, ht, Links.set] at hrec ⊢
          refine ⟨rfl, ?_⟩
          rw [Function.update_of_ne hqt]
          exact hrec

/-- The unlinking loop does what the sweep does, and leaves the kept elements in the list. -/
theorem unlink_eq [DecidableEq ι] (drop : σ → ι → Bool) (onDrop onKeep : σ → ι → Except ε σ)
    {k : Links ι} (s : σ) {kept : List ι} {n : ℕ}
    (h : Chain k.next k.head (kept ++ l)) (hnodup : (kept ++ l).Nodup) (hn : l.length ≤ n) :
    (∃ e, unlink drop onDrop onKeep n l.head? kept.getLast? k s = .error e ∧
      sweep drop onDrop onKeep l s = .error e) ∨
    ∃ k' s' left, unlink drop onDrop onKeep n l.head? kept.getLast? k s = .ok (k', s') ∧
      sweep drop onDrop onKeep l s = .ok (left, s') ∧ Chain k'.next k'.head (kept ++ left) := by
  induction l generalizing n kept k s with
  | nil =>
      refine .inr ⟨k, s, [], ?_, rfl, h⟩
      cases n <;> rfl
  | cons p rest ih =>
      obtain ⟨n, rfl⟩ : ∃ m, n = m + 1 := ⟨n - 1, by simp at hn; omega⟩
      have hlen : rest.length ≤ n := by simpa using hn
      have hmove : kept ++ p :: rest = (kept ++ [p]) ++ rest := List.append_cons ..
      have hnext : k.next p = rest.head? := by
        rw [hmove] at h
        simpa [Links.get] using h.of_append.head_eq
      simp only [List.head?_cons, unlink, sweep, hnext]
      cases drop s p with
      | true =>
          rw [if_pos rfl, if_pos rfl]
          have hset := h.set_last hnodup
          rw [hnext] at hset
          have hsub : (kept ++ rest).Nodup :=
            hnodup.sublist ((List.sublist_cons_self p rest).append_left kept)
          cases onDrop s p with
          | error e => exact .inl ⟨e, rfl, rfl⟩
          | ok m => exact ih m hset hsub hlen
      | false =>
          rw [if_neg (by decide), if_neg (by decide)]
          have hlast : (kept ++ [p]).getLast? = some p := by simp
          cases onKeep s p with
          | error e => exact .inl ⟨e, rfl, rfl⟩
          | ok m =>
              rw [hmove] at h hnodup
              have hrec := ih m h hnodup hlen
              rw [hlast] at hrec
              cases hrec with
              | inl hfail =>
                  obtain ⟨e, hunlink, hsweep⟩ := hfail
                  exact .inl ⟨e, hunlink, Execution.bind_eq_error.mpr
                    (.inr ⟨m, rfl, Execution.bind_eq_error.mpr (.inl hsweep)⟩)⟩
              | inr hdone =>
                  obtain ⟨k', s', left, hunlink, hsweep, hchain⟩ := hdone
                  refine .inr ⟨k', s', p :: left, hunlink, ?_, by rw [List.append_cons]; exact hchain⟩
                  exact Execution.bind_eq_ok.mpr
                    ⟨m, rfl, Execution.bind_eq_ok.mpr ⟨(left, s'), hsweep, rfl⟩⟩

/-- The loop over the whole list. -/
theorem unlink_eq_ok [DecidableEq ι] {drop : σ → ι → Bool} {onDrop onKeep : σ → ι → Except ε σ}
    {k k' : Links ι} {s s' : σ} {n : ℕ} (h : Chain k.next k.head l) (hnodup : l.Nodup)
    (hn : l.length ≤ n) (hrun : unlink drop onDrop onKeep n k.head none k s = .ok (k', s')) :
    ∃ left, sweep drop onDrop onKeep l s = .ok (left, s') ∧ Chain k'.next k'.head left := by
  have heq := @unlink_eq ι σ ε l _ drop onDrop onKeep k s [] n h hnodup hn
  rw [← h.head_eq] at heq
  cases heq with
  | inl hfail =>
      obtain ⟨e, hunlink, _⟩ := hfail
      cases hrun.symm.trans hunlink
  | inr hdone =>
      obtain ⟨k'', s'', left, hunlink, hsweep, hchain⟩ := hdone
      cases hrun.symm.trans hunlink
      exact ⟨left, hsweep, hchain⟩

/-- The loop ends where the sweep does. -/
theorem unlink_ok [DecidableEq ι] {drop : σ → ι → Bool} {onDrop onKeep : σ → ι → Except ε σ}
    {k : Links ι} {s : σ} {n : ℕ} (h : Chain k.next k.head l) (hnodup : l.Nodup)
    (hn : l.length ≤ n) (hsweep : ∃ out, sweep drop onDrop onKeep l s = .ok out) :
    ∃ k' s', unlink drop onDrop onKeep n k.head none k s = .ok (k', s') := by
  have heq := @unlink_eq ι σ ε l _ drop onDrop onKeep k s [] n h hnodup hn
  rw [← h.head_eq] at heq
  cases heq with
  | inl hfail =>
      obtain ⟨e, _, hfail⟩ := hfail
      obtain ⟨out, hout⟩ := hsweep
      cases hout.symm.trans hfail
  | inr hdone =>
      obtain ⟨k', s', _, hunlink, _, _⟩ := hdone
      exact ⟨k', s', hunlink⟩

/-- What the sweep keeps, and what it does: the element that the loop looks at is dropped by a
condition that the loop does not change, and `I` holds of what it has gone through. -/
theorem sweep_spec {drop : σ → ι → Bool} {onDrop onKeep : σ → ι → Except ε σ} (D : ι → Bool)
    (I : List ι → σ → Prop) {done : List ι} {s s' : σ} {left : List ι}
    (hD : ∀ done p rest s, I done s → done ++ p :: rest = l → drop s p = D p)
    (hdrop : ∀ done p rest s t, I done s → done ++ p :: rest = l → D p = true →
      onDrop s p = .ok t → I (done ++ [p]) t)
    (hkeep : ∀ done p rest s t, I done s → done ++ p :: rest = l → D p = false →
      onKeep s p = .ok t → I (done ++ [p]) t)
    (hI : I done s) (hl : done ++ rest = l)
    (h : sweep drop onDrop onKeep rest s = .ok (left, s')) :
    left = rest.filter (fun p => !D p) ∧ I l s' := by
  induction rest generalizing done s left with
  | nil =>
      cases h
      rw [List.append_nil] at hl
      exact ⟨rfl, hl ▸ hI⟩
  | cons p rest ih =>
      have hmove : (done ++ [p]) ++ rest = l := by
        rw [← hl]
        exact (List.append_cons ..).symm
      have hDp := hD done p rest s hI hl
      rw [sweep, hDp] at h
      cases hp : D p with
      | true =>
          rw [hp] at h
          obtain ⟨m, hm, h⟩ := Execution.bind_eq_ok.mp h
          obtain ⟨hleft, hlast⟩ := ih (hdrop done p rest s m hI hl hp hm) hmove h
          exact ⟨by rw [hleft, List.filter_cons_of_neg (by simp [hp])], hlast⟩
      | false =>
          rw [hp] at h
          obtain ⟨m, hm, h⟩ := Execution.bind_eq_ok.mp h
          obtain ⟨⟨left', s''⟩, hrest, h⟩ := Execution.bind_eq_ok.mp h
          cases h
          obtain ⟨hleft, hlast⟩ := ih (hkeep done p rest s m hI hl hp hm) hmove hrest
          exact ⟨by rw [hleft, List.filter_cons_of_pos (by simp [hp])], hlast⟩

/-- The sweep gets to the end if the actions on its way can be taken. -/
theorem sweep_ok (drop : σ → ι → Bool) (onDrop onKeep : σ → ι → Except ε σ)
    (I : List ι → σ → Prop) (s : σ) {done : List ι}
    (hdrop : ∀ done p rest s, I done s → done ++ p :: rest = l → drop s p = true →
      ∃ t, onDrop s p = .ok t ∧ I (done ++ [p]) t)
    (hkeep : ∀ done p rest s, I done s → done ++ p :: rest = l → drop s p = false →
      ∃ t, onKeep s p = .ok t ∧ I (done ++ [p]) t)
    (hI : I done s) (hl : done ++ rest = l) :
    ∃ out, sweep drop onDrop onKeep rest s = .ok out := by
  induction rest generalizing done s with
  | nil => exact ⟨_, rfl⟩
  | cons p rest ih =>
      have hmove : (done ++ [p]) ++ rest = l := by
        rw [← hl]
        exact (List.append_cons ..).symm
      rw [sweep]
      cases hp : drop s p with
      | true =>
          obtain ⟨m, hm, hIm⟩ := hdrop done p rest s hI hl hp
          obtain ⟨out, hout⟩ := ih m hIm hmove
          exact ⟨out, Execution.bind_eq_ok.mpr ⟨m, hm, hout⟩⟩
      | false =>
          obtain ⟨m, hm, hIm⟩ := hkeep done p rest s hI hl hp
          obtain ⟨out, hout⟩ := ih m hIm hmove
          exact ⟨(p :: out.1, out.2),
            Execution.bind_eq_ok.mpr ⟨m, hm, Execution.bind_eq_ok.mpr ⟨out, hout, rfl⟩⟩⟩

end Scarab.Linked
