import CodeStrudy.AlienInvasion.Geometry

/-!
# A new fleet and the ship

A fleet is created at the start, when the last one has been shot down, when a ship is lost and when
Play is clicked.  It is laid out by the size of the display at that time, but the ship stays at the
bottom of the window.  After the change to a full screen that is much higher than the window a new
fleet reaches down to where the ship is.

## What is proved

* `separate_iff`: a run is free of new fleets that meet the ship exactly if at each step that
  creates a fleet none of its rows is at the ship's height or none of its columns is over the ship.
* `separate_of_height`: no new fleet ever meets the ship if the full screen is at most three aliens
  higher than the window.
-/

namespace CodeStrudy
namespace AlienInvasion

open Foundation

variable {c : Config} {s t : State} {a : Label}

/-- Directly after the last fleet was created no alien met the ship. -/
def Separate (s : State) : Prop :=
  ∀ alien ∈ s.hist.created.2, ¬ alien.rect.colliderect s.hist.created.1

instance (s : State) : Decidable (Separate s) :=
  inferInstanceAs (Decidable (∀ alien ∈ s.hist.created.2, _))

/-- The step creates a fleet: a click on Play, the update of the bullets when no alien is left, or a
hit with ships left. -/
def Creates (c : Config) (s : State) (a : Label) : Prop :=
  (∃ pos, a = .event (.mouseButtonDown pos) ∧ Plays c s pos) ∨
    (a = .go ∧ s.phase = .bullets ∧ (collisions s).2 = []) ∨
    (a = .go ∧ 0 < s.stats.shipsLeft ∧ ∃ p, Hit s p)

/-- A row of aliens that fits into the height of the display is at the height of the ship. -/
def RowMeets (c : Config) (s : State) (row : ℕ) : Prop :=
  2 * c.alien.h * (row + 1) ≤ s.settings.screenHeight - 3 * c.alien.h - s.ship.rect.h ∧
    c.alien.h + 2 * c.alien.h * row < s.ship.rect.bottom ∧
    s.ship.rect.top < c.alien.h + 2 * c.alien.h * row + c.alien.h

/-- A column of aliens that fits into the width of the display is over the ship. -/
def ColMeets (c : Config) (s : State) (col : ℕ) : Prop :=
  2 * c.alien.w * (col + 1) ≤ s.settings.screenWidth - 2 * c.alien.w ∧
    c.alien.w + 2 * c.alien.w * col < s.ship.rect.right ∧
    s.ship.rect.left < c.alien.w + 2 * c.alien.w * col + c.alien.w

/-- No row that fits is at the height of the ship, or no column that fits is over it. -/
def Clear (c : Config) (s : State) : Prop :=
  (∀ row, ¬ RowMeets c s row) ∨ ∀ col, ¬ ColMeets c s col

/-- A new fleet meets the ship exactly if one of its rows and one of its columns do. -/
theorem clear_iff : Clear c s ↔
    ∀ alien ∈ fleet c s.settings s.ship.rect.h, ¬ alien.rect.colliderect s.ship.rect := by
  constructor
  · intro hclear alien halien hmeet
    obtain ⟨row, hrow, col, hcol, rfl⟩ := mem_fleet_iff.mp halien
    obtain ⟨hleft, hright, htop, hbottom⟩ := hmeet
    rcases hclear with hclear | hclear
    · exact hclear row ⟨hrow, htop, hbottom⟩
    · exact hclear col ⟨hcol, hleft, hright⟩
  · intro hfree
    by_contra hclear
    rw [Clear, not_or, not_forall, not_forall] at hclear
    obtain ⟨⟨row, hrow⟩, ⟨col, hcol⟩⟩ := hclear
    obtain ⟨hrow, htop, hbottom⟩ := not_not.mp hrow
    obtain ⟨hcol, hleft, hright⟩ := not_not.mp hcol
    exact hfree (createAlien c col row) (mem_fleet_iff.mpr ⟨row, hrow, col, hcol, rfl⟩)
      ⟨hleft, hright, htop, hbottom⟩

/-- A part of an iteration that is none of the three creates no fleet. -/
theorem not_creates_go {p : Phase} (hphase : s.phase = p) (hbullets : p ≠ .bullets)
    (hcollide : p ≠ .collide) (hbottom : p ≠ .bottom) : ¬ Creates c s .go := by
  rintro (⟨pos, heq, -⟩ | ⟨-, h, -⟩ | ⟨-, -, p, ⟨h, -⟩ | ⟨h, -⟩⟩)
  · cases heq
  · exact hbullets (hphase.symm.trans h)
  · exact hcollide (hphase.symm.trans h)
  · exact hbottom (hphase.symm.trans h)

/-- A check that finds no hit is not one that finds one. -/
theorem not_hit_of_missed {p q : Phase} (h : Missed s p) : ¬ Hit s q := by
  rcases h with ⟨hphase, hnot, -⟩ | ⟨hphase, hnot, -⟩
  · rintro (⟨-, h, -⟩ | ⟨h, -⟩)
    · exact hnot h
    · exact absurd (hphase.symm.trans h) (by decide)
  · rintro (⟨h, -⟩ | ⟨-, h, -⟩)
    · exact absurd (hphase.symm.trans h) (by decide)
    · exact hnot h

/-- A step that creates a fleet lays it out around the ship as it is; every other leaves what was
created. -/
theorem creates_cases (h : Effect c s a t) :
    (Creates c s a ∧ t.hist.created = (s.ship.rect, fleet c s.settings s.ship.rect.h)) ∨
      (¬ Creates c s a ∧ t.hist.created = s.hist.created) := by
  cases h with
  | play hphase hplay => exact .inl ⟨.inl ⟨_, rfl, hplay⟩, rfl⟩
  | cleared hphase hleft => exact .inl ⟨.inr (.inl ⟨rfl, hphase, hleft⟩), rfl⟩
  | charged hhit hpos => exact .inl ⟨.inr (.inr ⟨rfl, hpos, _, hhit⟩), rfl⟩
  | idle hphase hf hplay hidle =>
    refine .inr ⟨?_, congrArg History.created hidle.hist⟩
    rintro (⟨pos, heq, hplays⟩ | ⟨heq, -⟩ | ⟨heq, -⟩)
    · exact hplay pos (Label.event.inj heq) hplays
    · cases heq
    · cases heq
  | fullScreen hphase =>
    refine .inr ⟨?_, rfl⟩
    rintro (⟨pos, heq, -⟩ | ⟨heq, -⟩ | ⟨heq, -⟩) <;> cases heq
  | shot hphase hleft =>
    refine .inr ⟨?_, rfl⟩
    rintro (⟨pos, heq, -⟩ | ⟨-, -, hnil⟩ | ⟨-, -, p, ⟨h, -⟩ | ⟨h, -⟩⟩)
    · cases heq
    · exact hleft hnil
    · exact absurd (hphase.symm.trans h) (by decide)
    · exact absurd (hphase.symm.trans h) (by decide)
  | lost hhit hpos =>
    refine .inr ⟨?_, rfl⟩
    rintro (⟨pos, heq, -⟩ | ⟨-, hbullets, -⟩ | ⟨-, hpos', -⟩)
    · cases heq
    · rcases hhit with ⟨h, -⟩ | ⟨h, -⟩ <;> exact absurd (hbullets.symm.trans h) (by decide)
    · exact hpos hpos'
  | missed hmissed =>
    refine .inr ⟨?_, rfl⟩
    rintro (⟨pos, heq, -⟩ | ⟨-, hbullets, -⟩ | ⟨-, -, q, hhit⟩)
    · cases heq
    · rcases hmissed with ⟨h, -⟩ | ⟨h, -⟩ <;> exact absurd (hbullets.symm.trans h) (by decide)
    · exact not_hit_of_missed hmissed hhit
  | frame hphase | ship hphase | turned hphase | ahead hphase | screen hphase =>
    exact .inr ⟨not_creates_go hphase (by decide) (by decide) (by decide), rfl⟩

/-- A step that creates a fleet leaves it apart from the ship exactly if the place is clear. -/
theorem separate_step_iff (h : Effect c s a t) (hs : Separate s) :
    Separate t ↔ (Creates c s a → Clear c s) := by
  rcases creates_cases h with ⟨hc, hcreated⟩ | ⟨hnot, hcreated⟩
  · unfold Separate
    rw [hcreated, forall_prop_of_true hc, clear_iff]
  · refine iff_of_true ?_ fun hc => absurd hc hnot
    unfold Separate
    rw [hcreated]
    exact hs

/-- In a display at most three aliens higher than the window all rows are above the ship. -/
theorem clear_of_height (hs : Placed c s)
    (h : s.settings.screenHeight ≤ c.window.h + 3 * c.alien.h) : Clear c s := by
  refine .inl fun row hrow => ?_
  obtain ⟨hfits, -, hmeet⟩ := hrow
  have htop : s.ship.rect.top = c.window.h - c.ship.h := hs.shipTop
  rw [hs.shipHeight] at hfits
  rw [htop] at hmeet
  nlinarith

theorem separate_initial (c : Config) : Separate (initial c) := by
  have hclear : Clear c (initial c) := by
    refine clear_of_height (Placed.initial c) ?_
    show c.window.h ≤ c.window.h + 3 * c.alien.h
    have := c.alien.h_pos
    omega
  exact clear_iff.mp hclear

/-- **New fleets and the ship.**  Directly after every creation of a fleet in a run no alien meets
the ship exactly if at each step of the run that creates a fleet the place is clear. -/
theorem separate_iff (c : Config) (as : List Label) :
    (machine c).Throughout Separate (initial c) as ↔
      (machine c).Respects (fun s a => Creates c s a → Clear c s) (initial c) as :=
  Machine.throughout_iff_respects (I := fun _ => True) (fun _ _ _ _ _ => trivial)
    (fun _ _ _ _ hs hst => separate_step_iff (effect_of_step hst) hs) as trivial
    (separate_initial c)

/-- With a full screen at most three aliens higher than the window it is always clear. -/
theorem separate_of_height (h : c.full.h ≤ c.window.h + 3 * c.alien.h)
    (hs : (machine c).Reachable s) : Separate s := by
  have hheight : ∀ {s : State}, Placed c s →
      s.settings.screenHeight ≤ c.window.h + 3 * c.alien.h := by
    intro s hs
    rw [hs.height]
    rcases hs.display with hd | hd
    · rw [hd]
      have := c.alien.h_pos
      omega
    · rw [hd]
      exact h
  refine (hs.invariant (I := fun s => Placed c s ∧ Separate s) ?_ ?_).2
  · rintro s rfl
    exact ⟨Placed.initial c, separate_initial c⟩
  · intro s a t hI hst
    have h := effect_of_step hst
    exact ⟨hI.1.step h, (separate_step_iff h hI.2).mpr fun _ => clear_of_height hI.1 (hheight hI.1)⟩

/-- The key `f` and a click on Play: the fifth row of the new fleet is over the ship. -/
theorem not_separate : ¬ ∀ (c : Config) (as : List Label),
    (machine c).Throughout Separate (initial c) as := by
  intro h
  have hfull := (h smallWindow [.event (.keyDown .f), .event (.mouseButtonDown (5, 5))]).2 _ rfl
  have hplay := (hfull.2 _ rfl).head
  revert hplay
  decide +kernel

end AlienInvasion
end CodeStrudy
