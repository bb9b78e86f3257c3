import CodeStrudy.AlienInvasion.Geometry

/-!
# Ships lost

A frame looks for a hit twice: an alien that meets the ship, and an alien at the bottom of the
display.  Either way a ship is taken away, if there is one left, and a new fleet is made.  The new
fleet is not at the bottom, so a frame whose first check has found a hit finds none in the second.

## What is proved

* `lives`: in every reachable state the number of ships left is between zero and the limit, at most
  one has been taken away in this iteration, and the game ends only in an iteration at whose head
  none was left.
-/

namespace CodeStrudy
namespace AlienInvasion

open Foundation

variable {c : Config} {s t : State} {a : Label}

/-- No ship has been taken away in this iteration: there are as many as at its head, or a new game
has been started. -/
def Uncharged (s : State) : Prop :=
  s.hist.charged = 0 ∧
    (s.stats.shipsLeft = s.hist.atHead.shipsLeft ∨ s.stats.shipsLeft = shipLimit)

/-- One ship has been taken away in this iteration. -/
def Charged (s : State) : Prop :=
  s.hist.charged = 1 ∧
    (s.stats.shipsLeft = s.hist.atHead.shipsLeft - 1 ∨ s.stats.shipsLeft = shipLimit - 1)

/-- A ship can be charged before the second check only if the fleet is new by then. -/
structure Counted (c : Config) (s : State) : Prop where
  placed : Placed c s
  nonneg : 0 ≤ s.stats.shipsLeft
  le_limit : s.stats.shipsLeft ≤ shipLimit
  head_le_limit : s.hist.atHead.shipsLeft ≤ shipLimit
  charged : Uncharged s ∨
    Charged s ∧ (s.phase = .bottom ∧ ¬ AtBottom s ∨ s.phase = .screen)

theorem Counted.initial (c : Config) : Counted c (initial c) where
  placed := Placed.initial c
  nonneg := (by decide : (0 : ℤ) ≤ shipLimit)
  le_limit := le_refl _
  head_le_limit := le_refl _
  charged := .inl ⟨rfl, .inl rfl⟩

/-- Where no check of this iteration has been made, no ship has been charged. -/
theorem Counted.uncharged (hs : Counted c s) {p : Phase} (hphase : s.phase = p)
    (hbottom : p ≠ .bottom) (hscreen : p ≠ .screen) : Uncharged s := by
  rcases hs.charged with h | ⟨-, ⟨h, -⟩ | h⟩
  · exact h
  · exact absurd (hphase.symm.trans h) hbottom
  · exact absurd (hphase.symm.trans h) hscreen

/-- Neither has one where a check finds a hit. -/
theorem Counted.uncharged_of_hit (hs : Counted c s) {p : Phase} (h : Hit s p) : Uncharged s := by
  rcases h with ⟨hphase, -⟩ | ⟨hphase, hbottom, -⟩
  · exact hs.uncharged hphase (by decide) (by decide)
  · rcases hs.charged with h | ⟨-, ⟨-, hnot⟩ | h⟩
    · exact h
    · exact absurd hbottom hnot
    · exact absurd (hphase.symm.trans h) (by decide)

/-- A step that leaves the counts alone. -/
theorem Counted.keep (hs : Counted c s) (hu : Uncharged s) (hplaced : Placed c t)
    (hleft : t.stats.shipsLeft = s.stats.shipsLeft) (hhead : t.hist.atHead = s.hist.atHead)
    (hcharged : t.hist.charged = s.hist.charged) : Counted c t where
  placed := hplaced
  nonneg := hleft ▸ hs.nonneg
  le_limit := hleft ▸ hs.le_limit
  head_le_limit := hhead ▸ hs.head_le_limit
  charged := .inl (by rw [Uncharged, hleft, hhead, hcharged]; exact hu)

/-- Where a hit is looked for a second time in a frame, or not any more. -/
theorem phase_of_hit {p : Phase} (h : Hit s p) : p = .bottom ∨ p = .screen := by
  rcases h with ⟨-, -, hp⟩ | ⟨-, -, hp⟩
  · exact .inl hp
  · exact .inr hp

/-- A new fleet is not at the bottom. -/
theorem not_atBottom_of_fresh (hs : Placed c s)
    (h : s.aliens = fleet c s.settings s.ship.rect.h) : ¬ AtBottom s := by
  rintro ⟨alien, halien, hbottom⟩
  rw [h] at halien
  exact absurd (bottom_lt_of_mem_fleet hs halien) (not_lt.mpr hbottom)

theorem Counted.step (hs : Counted c s) (h : Effect c s a t) : Counted c t := by
  have hplaced : Placed c t := hs.placed.step h
  cases h with
  | idle hphase _ _ hidle =>
    exact hs.keep (hs.uncharged hphase (by decide) (by decide)) hplaced
      (by rw [hidle.stats]) (by rw [hidle.hist]) (by rw [hidle.hist])
  | play hphase =>
    obtain ⟨hcount, -⟩ := hs.uncharged hphase (by decide) (by decide)
    exact ⟨hplaced, (by decide : (0 : ℤ) ≤ shipLimit), le_refl _, hs.head_le_limit,
      .inl ⟨hcount, .inr rfl⟩⟩
  | fullScreen hphase | frame hphase | ship hphase | cleared hphase | shot hphase | turned hphase
  | ahead hphase =>
    exact hs.keep (hs.uncharged hphase (by decide) (by decide)) hplaced rfl rfl rfl
  | charged hhit hpos =>
    obtain ⟨hcount, hleft⟩ := hs.uncharged_of_hit hhit
    have hfresh := not_atBottom_of_fresh hplaced rfl
    have hle := hs.le_limit
    refine ⟨hplaced, Int.sub_nonneg_of_le hpos, (Int.sub_le_self _ (by decide)).trans hle,
      hs.head_le_limit, .inr ⟨⟨congrArg (· + 1) hcount, ?_⟩, ?_⟩⟩
    · exact hleft.imp (congrArg (· - 1)) (congrArg (· - 1))
    · rcases phase_of_hit hhit with rfl | rfl
      · exact .inl ⟨rfl, hfresh⟩
      · exact .inr rfl
  | lost hhit => exact hs.keep (hs.uncharged_of_hit hhit) hplaced rfl rfl rfl
  | missed hmissed =>
    rcases hmissed with ⟨hphase, -⟩ | ⟨hphase, -, rfl⟩
    · exact hs.keep (hs.uncharged hphase (by decide) (by decide)) hplaced rfl rfl rfl
    · exact ⟨hplaced, hs.nonneg, hs.le_limit, hs.head_le_limit,
        hs.charged.imp_right fun h => ⟨h.1, .inr rfl⟩⟩
  | screen => exact ⟨hplaced, hs.nonneg, hs.le_limit, hs.le_limit, .inl ⟨rfl, .inl rfl⟩⟩

theorem Counted.of_reachable (h : (machine c).Reachable s) : Counted c s :=
  h.invariant (fun _ hinit => hinit ▸ Counted.initial c)
    fun _ _ _ hs hst => hs.step (effect_of_step hst)

/-- A step that ends the game finds a hit with no ship left. -/
theorem hit_of_inactive (h : Effect c s a t) (hactive : s.stats.gameActive = true)
    (hover : t.stats.gameActive = false) :
    (∃ p, Hit s p) ∧ ¬ 0 < s.stats.shipsLeft ∧ t.stats.shipsLeft = s.stats.shipsLeft := by
  cases h with
  | lost hhit hpos => exact ⟨⟨_, hhit⟩, hpos, rfl⟩
  | idle _ _ _ hidle =>
    rw [hidle.stats] at hover
    exact absurd (hactive.symm.trans hover) (by decide)
  | play => cases hover
  | _ => exact absurd (hactive.symm.trans hover) (by decide)

/-- **Ships lost.**  In every reachable state the ships left are between zero and the limit, and at
most one less than at the head of the iteration; no iteration takes away more than one; and a step
that ends the game does so in an iteration at whose head no ship was left. -/
theorem lives (c : Config) {s : State} (h : (machine c).Reachable s) :
    (0 ≤ s.stats.shipsLeft ∧ s.stats.shipsLeft ≤ shipLimit) ∧
    (s.hist.atHead.shipsLeft - 1 ≤ s.stats.shipsLeft ∧ s.hist.charged ≤ 1) ∧
    ∀ a t, step c s a = some t → s.stats.gameActive = true → t.stats.gameActive = false →
      s.hist.atHead.shipsLeft = 0 ∧ t.stats.shipsLeft = 0 := by
  have hs := Counted.of_reachable h
  have hnonneg := hs.nonneg
  have hhead := hs.head_le_limit
  refine ⟨⟨hs.nonneg, hs.le_limit⟩, ?_, fun a t hst hactive hover => ?_⟩
  · rcases hs.charged with ⟨hcount, hleft⟩ | ⟨⟨hcount, hleft⟩, -⟩
    · omega
    · omega
  · obtain ⟨⟨p, hhit⟩, hpos, heq⟩ := hit_of_inactive (effect_of_step hst) hactive hover
    obtain ⟨-, hleft⟩ := hs.uncharged_of_hit hhit
    have hlimit : shipLimit = 3 := rfl
    omega

/-- The small window: in the third frame the fleet is at the bottom and a ship is taken away, and
after three more hits the game ends. -/
theorem lives_game :
    (∃ s, (machine smallWindow).run (initial smallWindow) (played (5, 5) [] 20) = some s ∧
      (s.hist.charged = 1 ∧ s.hist.atHead.shipsLeft = 3 ∧ s.stats.shipsLeft = 2) ∧
      (0 ≤ s.stats.shipsLeft ∧ s.stats.shipsLeft ≤ shipLimit) ∧
      (s.hist.atHead.shipsLeft - 1 ≤ s.stats.shipsLeft ∧ s.hist.charged ≤ 1)) ∧
    ∃ s t, (machine smallWindow).run (initial smallWindow) (played (5, 5) [] 68) = some s ∧
      step smallWindow s .go = some t ∧ s.stats.gameActive = true ∧ t.stats.gameActive = false ∧
      s.hist.atHead.shipsLeft = 0 ∧ t.stats.shipsLeft = 0 := by
  constructor
  · obtain ⟨s, hrun, hreach, hs⟩ := Machine.Reachable.exists_of_run (M := machine smallWindow) rfl
      (played (5, 5) [] 20)
      (p := fun s => s.hist.charged = 1 ∧ s.hist.atHead.shipsLeft = 3 ∧ s.stats.shipsLeft = 2)
      (by decide +kernel)
    have hlives := lives smallWindow hreach
    exact ⟨s, hrun, of_decide_eq_true hs, hlives.1, hlives.2.1⟩
  · obtain ⟨s, hrun, hreach, hs⟩ := Machine.Reachable.exists_of_run (M := machine smallWindow) rfl
      (played (5, 5) [] 68)
      (p := fun s => s.stats.gameActive ∧
        (step smallWindow s .go).any fun t => t.stats.gameActive = false)
      (by decide +kernel)
    obtain ⟨hactive, hstep⟩ := of_decide_eq_true hs
    obtain ⟨t, hst, hover⟩ := (Option.any_eq_true _ _).mp hstep
    have hover := of_decide_eq_true hover
    exact ⟨s, t, hrun, hst, hactive, hover, (lives smallWindow hreach).2.2 _ t hst hactive hover⟩

end AlienInvasion
end CodeStrudy
