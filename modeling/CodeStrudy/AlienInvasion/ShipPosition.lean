import CodeStrudy.AlienInvasion.Game

/-!
# The ship and the edges of the display

`Ship.update` moves the ship by its speed when the rectangle has not yet reached the edge, and only
then cuts the new position to a whole number.  The last step before an edge is as long as any other,
so it may go beyond the edge by less than one step.

The ship is kept in the rectangle of the window in which it was made; with a fixed display this is
the rectangle of the display.

## What is proved

* `inside_iff`: in a run the ship is inside after every update exactly if no update makes a step
  that does not fit.
-/

namespace CodeStrudy
namespace AlienInvasion

open Foundation

variable {c : Config} {s t : State} {a : Label}

/-- The ship does not stick out on either side. -/
def Inside (c : Config) (ship : Ship) : Prop :=
  0 ≤ ship.rect.left ∧ ship.rect.right ≤ (Ship.screenRect c).right

instance (c : Config) (ship : Ship) : Decidable (Inside c ship) :=
  inferInstanceAs (Decidable (_ ∧ _))

/-- A step to the right alone, or to the left alone, that the next update makes fits in. -/
def StepFits (c : Config) (speed : ℚ) (ship : Ship) : Prop :=
  (ship.GoesRight c → ¬ ship.GoesLeft → ship.x + speed < c.window.w - c.ship.w + 1) ∧
    (ship.GoesLeft → ¬ ship.GoesRight c → -1 < ship.x - speed)

/-- The rectangle follows the position, and the ship is inside. -/
structure Steered (c : Config) (ship : Ship) : Prop where
  width : ship.rect.w = c.ship.w
  trunc_x : ship.rect.x = trunc ship.x
  inside : Inside c ship

theorem Steered.centerShip (h : c.ship.w < c.window.w) {ship : Ship}
    (hwidth : ship.rect.w = c.ship.w) : Steered c (ship.centerShip c) where
  width := hwidth
  trunc_x := (trunc_intCast _).symm
  inside := by
    have hpos := c.ship.w_pos
    constructor
    · show 0 ≤ 0 + c.window.w / 2 - ship.rect.w / 2
      omega
    · show 0 + c.window.w / 2 - ship.rect.w / 2 + ship.rect.w ≤ 0 + c.window.w
      omega

/-- What being inside says about the position. -/
theorem inside_iff_x {ship : Ship} (h : c.ship.w < c.window.w) (hwidth : ship.rect.w = c.ship.w)
    (hx : ship.rect.x = trunc ship.x) :
    Inside c ship ↔ -1 < ship.x ∧ ship.x < c.window.w - c.ship.w + 1 := by
  have hroom : 0 ≤ c.window.w - c.ship.w := by omega
  have hright : ship.rect.right ≤ (Ship.screenRect c).right ↔
      trunc ship.x ≤ c.window.w - c.ship.w := by
    show ship.rect.x + ship.rect.w ≤ 0 + c.window.w ↔ _
    rw [hx, hwidth]
    omega
  have hleft : 0 ≤ ship.rect.left ↔ 0 ≤ trunc ship.x := by rw [← hx]; rfl
  rw [Inside, hright, hleft, trunc_nonneg_iff, trunc_le_iff hroom]
  push_cast
  rfl

/-- After an update the ship is inside exactly if the step that it made fits in. -/
theorem inside_update_iff {ship : Ship} (h : c.ship.w < c.window.w) (hs : Steered c ship)
    {speed : ℚ} (hspeed : 0 < speed) :
    Inside c (ship.update c speed) ↔ StepFits c speed ship := by
  obtain ⟨hlo, hhi⟩ := (inside_iff_x h hs.width hs.trunc_x).mp hs.inside
  have hwidth : (ship.update c speed).rect.w = c.ship.w := hs.width
  rw [inside_iff_x h hwidth rfl]
  show -1 < ship.nextX c speed ∧ ship.nextX c speed < _ ↔ _
  unfold StepFits Ship.nextX
  by_cases hright : ship.GoesRight c
  · by_cases hleft : ship.GoesLeft
    · -- both keys are held, and the two steps cancel
      simp only [hright, hleft, if_true, not_true_eq_false, false_imp_iff, true_imp_iff, and_true]
      exact iff_of_true ⟨by linarith, by linarith⟩ trivial
    · simp only [hright, hleft, if_true, if_false, not_true_eq_false, not_false_eq_true,
        true_imp_iff, false_imp_iff, and_true, sub_zero]
      exact ⟨fun h => h.2, fun h => ⟨by linarith, h⟩⟩
  · by_cases hleft : ship.GoesLeft
    · simp only [hright, hleft, if_true, if_false, not_false_eq_true, true_imp_iff,
        false_imp_iff, true_and, add_zero]
      exact ⟨fun h => h.1, fun h => ⟨h, by linarith⟩⟩
    · simp only [hright, hleft, if_false, false_imp_iff, and_true, add_zero, sub_zero]
      exact iff_of_true ⟨hlo, hhi⟩ trivial

/-! ## Runs -/

/-- The ship is steered, and its speed is positive. -/
structure Steering (c : Config) (s : State) : Prop where
  ship : Steered c s.ship
  speed : 0 < s.settings.shipSpeed

theorem Steering.initial (h : c.ship.w < c.window.w) : Steering c (initial c) where
  ship := Steered.centerShip h rfl
  speed := by
    show (0 : ℚ) < 3 / 2
    norm_num

/-- The update of the next step fits, if it is the ship's. -/
def Fits (c : Config) (s : State) : Prop :=
  s.phase = .ship → StepFits c s.settings.shipSpeed s.ship

/-- Steps that fit keep the ship inside. -/
theorem Steering.step (hw : c.ship.w < c.window.w) (hs : Steering c s) (hfits : Fits c s)
    (h : Effect c s a t) : Steering c t := by
  cases h with
  | idle _ _ _ hidle =>
    refine ⟨⟨?_, ?_, ?_⟩, ?_⟩
    · rw [hidle.rect, hs.ship.width]
    · rw [hidle.rect, hidle.x, hs.ship.trunc_x]
    · unfold Inside
      rw [hidle.rect]
      exact hs.ship.inside
    · rw [hidle.settings]
      exact hs.speed
  | ship hphase =>
    exact ⟨⟨hs.ship.width, rfl, (inside_update_iff hw hs.ship hs.speed).mpr (hfits hphase)⟩,
      hs.speed⟩
  | play =>
    refine ⟨Steered.centerShip hw hs.ship.width, ?_⟩
    show (0 : ℚ) < 3 / 2
    norm_num
  | charged => exact ⟨Steered.centerShip hw hs.ship.width, hs.speed⟩
  | cleared =>
    refine ⟨hs.ship, ?_⟩
    show 0 < s.settings.shipSpeed * (11 / 10)
    linarith [hs.speed]
  | turned | ahead | fullScreen | frame | shot | lost | missed | screen => exact { hs with }

/-- **The ship and the edges of the display.**  The ship is inside after every update of a run
exactly if every step that an update of the run makes fits in. -/
theorem inside_iff (c : Config) (h : c.ship.w < c.window.w) (as : List Label) :
    (machine c).Throughout (fun s => s.phase = .bullets → Inside c s.ship) (initial c) as ↔
      (machine c).Respects (fun s _ => Fits c s) (initial c) as := by
  have hgood : ∀ s, Steering c s → s.phase = .bullets → Inside c s.ship :=
    fun s hs _ => hs.ship.inside
  refine Machine.throughout_iff_respects_of_invariant (M := machine c) hgood
    (fun s a t hs hst hfits => hs.step h hfits (effect_of_step hst)) ?_ as (Steering.initial h)
  intro s a t hs hst hnot hin
  obtain ⟨hphase, hlong⟩ := Classical.not_imp.mp hnot
  cases effect_of_step hst with
  | ship => exact hlong ((inside_update_iff h hs.ship hs.speed).mp (hin rfl))
  | charged hhit | lost hhit =>
    rcases hhit with ⟨hp, -⟩ | ⟨hp, -⟩ <;> exact absurd (hphase.symm.trans hp) (by decide)
  | missed hmissed =>
    rcases hmissed with ⟨hp, -⟩ | ⟨hp, -⟩ <;> exact absurd (hphase.symm.trans hp) (by decide)
  | idle hp | fullScreen hp | play hp | frame hp | cleared hp | shot hp | turned hp | ahead hp
  | screen hp =>
    exact absurd (hphase.symm.trans hp) (by decide)

/-- A click on Play, the right key pressed, and `n` parts of iterations. -/
def toTheRight (n : ℕ) : List Label :=
  .event (.mouseButtonDown (2, 5)) :: .event (.keyDown .right) :: List.replicate n .go

/-- One frame with the right key held. -/
theorem inside_one_frame :
    (machine smallWindow).Throughout (fun s => s.phase = .bullets → Inside smallWindow s.ship)
        (initial smallWindow) (toTheRight 2) ↔
      (machine smallWindow).Respects (fun s _ => Fits smallWindow s) (initial smallWindow)
        (toTheRight 2) :=
  inside_iff smallWindow (by decide) _

/-- Two frames with the right key held: from 2 to 3.5 and to 5, where the display ends. -/
theorem not_inside : ¬ ∀ (c : Config) (as : List Label), c.ship.w < c.window.w →
    (machine c).Throughout (fun s => s.phase = .bullets → Inside c s.ship) (initial c) as := by
  intro h
  have hout : ((machine smallWindow).run (initial smallWindow) (toTheRight 9)).any
      (fun t => t.phase = .bullets ∧ ¬ Inside smallWindow t.ship) = true := by
    decide +kernel
  obtain ⟨t, hrun, ht⟩ := (Option.any_eq_true _ _).mp hout
  obtain ⟨hphase, hnot⟩ := of_decide_eq_true ht
  exact hnot ((h smallWindow _ (by decide)).of_run hrun hphase)

end AlienInvasion
end CodeStrudy
