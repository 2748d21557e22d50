import Scarab.Lib.History

/-! # Cells with a wrong-path half

A cell keeps the newest value that a path of events gave it. It has two halves, one for the
right path and one for a wrong path that may follow it, and a flag that says which half
counts. Leaving the wrong path clears the flag and nothing else. -/

namespace Scarab.DualPath

open History

variable {ε β : Type*}

structure Cell (β : Type*) where
  onHalf : β
  offHalf : β
  flag : Bool

namespace Cell

def read (c : Cell β) : β := if c.flag then c.offHalf else c.onHalf

def write (c : Cell β) (off : Bool) (b : β) : Cell β :=
  if off then { c with offHalf := b, flag := true } else { c with onHalf := b, flag := false }

/-- Write the value an event has for the cell, if it has one. -/
def apply (f : ε → Option β) (off : Bool) (c : Cell β) (e : ε) : Cell β :=
  match f e with
  | some b => c.write off b
  | none => c

def reset (c : Cell β) : Cell β := { c with flag := false }

/-- The halves agree with the two parts of a path; the right half reads `init` at first, and
the wrong half says nothing before it is written. -/
structure Tracks (f : ε → Option β) (init : β) (on off : List ε) (c : Cell β) : Prop where
  onHalf : c.onHalf = (latest f on).getD init
  flag : c.flag = (latest f off).isSome
  offHalf : c.flag = true → c.offHalf = (latest f off).getD init

variable {f : ε → Option β} {init : β} {on off : List ε} {c : Cell β}

/-- A cell that tracks a path reads the newest value of the whole path. -/
theorem Tracks.read_eq (h : Tracks f init on off c) : c.read = (latest f (on ++ off)).getD init := by
  rw [latest_append]
  cases hl : latest f off with
  | none =>
      have hflag : c.flag = false := by rw [h.flag, hl]; rfl
      simpa [read, hflag] using h.onHalf
  | some b =>
      have hflag : c.flag = true := by rw [h.flag, hl]; rfl
      simpa [read, hflag, hl] using h.offHalf hflag

theorem tracks_nil (b : β) : Tracks f init [] [] ⟨init, b, false⟩ :=
  ⟨rfl, rfl, fun h => by cases h⟩

/-- An event of the right path, before any wrong path. -/
theorem Tracks.apply_on (h : Tracks f init on [] c) (e : ε) :
    Tracks f init (on ++ [e]) [] (c.apply f false e) := by
  have hflag : c.flag = false := h.flag
  cases he : f e with
  | none =>
      rw [show c.apply f false e = c by simp [Cell.apply, he]]
      exact ⟨by rw [latest_concat_of_none he]; exact h.onHalf, h.flag, h.offHalf⟩
  | some b =>
      rw [show c.apply f false e = c.write false b by simp [Cell.apply, he]]
      refine ⟨?_, rfl, fun hf => by cases hf⟩
      rw [latest_concat_of_some he]
      rfl

/-- An event of the wrong path. -/
theorem Tracks.apply_off (h : Tracks f init on off c) (e : ε) :
    Tracks f init on (off ++ [e]) (c.apply f true e) := by
  cases he : f e with
  | none =>
      rw [show c.apply f true e = c by simp [Cell.apply, he]]
      exact ⟨h.onHalf, by rw [latest_concat_of_none he]; exact h.flag,
        by rw [latest_concat_of_none he]; exact h.offHalf⟩
  | some b =>
      rw [show c.apply f true e = c.write true b by simp [Cell.apply, he]]
      exact ⟨h.onHalf, by rw [latest_concat_of_some he]; rfl,
        fun _ => by rw [latest_concat_of_some he]; rfl⟩

/-- Without the wrong path. -/
theorem Tracks.reset (h : Tracks f init on off c) : Tracks f init on [] c.reset :=
  ⟨h.onHalf, rfl, fun hf => by cases hf⟩

/-- Replaying a wrong path. -/
theorem Tracks.replay (h : Tracks f init on off c) (rest : List ε) :
    Tracks f init on (off ++ rest) (rest.foldl (Cell.apply f true) c) := by
  induction rest generalizing off c with
  | nil => simpa using h
  | cons e rest ih =>
      rw [List.append_cons]
      exact ih (h.apply_off e)

end Cell

end Scarab.DualPath
