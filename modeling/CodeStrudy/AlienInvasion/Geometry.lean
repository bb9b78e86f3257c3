import CodeStrudy.AlienInvasion.Game

/-!
# Where the ship and a new fleet are

The sizes that a fleet is laid out by are those of the display, and the ship is at the bottom of the
window: `Placed` is kept by every step.  A new fleet is a grid of aliens that begins one alien away
from the left and the upper edge of the display, and ends two aliens before the right edge and three
aliens and a ship before the lower one.

## What is proved

* `Placed.of_reachable`: the sizes and the ship's height in every reachable state.
* `mem_fleet_iff`: the aliens of a new fleet.
* `fleet_layout`: the aliens that `createFleet` makes fill so many columns and rows, are apart and
  within the margins, and no column or row could be added.
* `not_checkEdges_of_mem_fleet`, `bottom_lt_of_mem_fleet`: a new fleet is at no edge and not at the
  bottom.
-/

namespace CodeStrudy
namespace AlienInvasion

open Foundation

variable {c : Config} {s t : State} {a : Label}

/-! ## Sizes and the ship's place -/

/-- The settings have the size of the display, and the ship is at the bottom of the window. -/
structure Placed (c : Config) (s : State) : Prop where
  display : s.display = c.window ∨ s.display = c.full
  width : s.settings.screenWidth = s.display.w
  height : s.settings.screenHeight = s.display.h
  shipWidth : s.ship.rect.w = c.ship.w
  shipHeight : s.ship.rect.h = c.ship.h
  shipTop : s.ship.rect.y = c.window.h - c.ship.h

theorem Placed.initial (c : Config) : Placed c (initial c) :=
  { display := .inl rfl
    width := rfl
    height := rfl
    shipWidth := rfl
    shipHeight := rfl
    shipTop := Int.zero_add c.window.h ▸ rfl }

/-- Centring puts the ship to the bottom of the window. -/
theorem top_centerShip {ship : Ship} (h : ship.rect.h = c.ship.h) :
    (ship.centerShip c).rect.y = c.window.h - c.ship.h := by
  show 0 + c.window.h - ship.rect.h = _
  rw [h, zero_add]

theorem Placed.step (hs : Placed c s) (h : Effect c s a t) : Placed c t := by
  cases h with
  | idle _ _ _ hidle =>
    exact {
      display := hidle.display ▸ hs.display
      width := by rw [hidle.settings, hidle.display, hs.width]
      height := by rw [hidle.settings, hidle.display, hs.height]
      shipWidth := by rw [hidle.rect, hs.shipWidth]
      shipHeight := by rw [hidle.rect, hs.shipHeight]
      shipTop := by rw [hidle.rect, hs.shipTop] }
  | fullScreen => exact { hs with display := .inr rfl, width := rfl, height := rfl }
  | play => exact { hs with shipTop := top_centerShip hs.shipHeight }
  | charged => exact { hs with shipTop := top_centerShip hs.shipHeight }
  | turned | ahead | frame | ship | cleared | shot | lost | missed | screen => exact { hs with }

theorem Placed.of_reachable (h : (machine c).Reachable s) : Placed c s :=
  h.invariant (fun _ hinit => hinit ▸ Placed.initial c)
    fun _ _ _ hs hst => hs.step (effect_of_step hst)

/-! ## A new fleet -/

/-- The columns and rows of a new fleet. -/
theorem mem_fleet_iff_lt {g : Settings} {shipHeigh : ℤ} {alien : Alien} :
    alien ∈ fleet c g shipHeigh ↔
      ∃ row < numberRows c g shipHeigh, ∃ col < numberAliensX c g,
        createAlien c col row = alien := by
  unfold fleet
  simp only [List.mem_flatMap, List.mem_map, List.mem_range]

theorem mem_fleet_iff {g : Settings} {shipHeigh : ℤ} {alien : Alien} :
    alien ∈ fleet c g shipHeigh ↔
      ∃ row : ℕ, 2 * c.alien.h * (row + 1) ≤ g.screenHeight - 3 * c.alien.h - shipHeigh ∧
        ∃ col : ℕ, 2 * c.alien.w * (col + 1) ≤ g.screenWidth - 2 * c.alien.w ∧
          createAlien c col row = alien := by
  have hw : 0 < 2 * c.alien.w := by have := c.alien.w_pos; omega
  have hh : 0 < 2 * c.alien.h := by have := c.alien.h_pos; omega
  simp only [mem_fleet_iff_lt, numberRows, numberAliensX, lt_fit_iff hw, lt_fit_iff hh]

/-- An alien is one alien from the left and the upper edge of the display, two aliens from the right
one, and three aliens above a ship at the bottom. -/
structure WithinMargins (c : Config) (g : Settings) (shipHeigh : ℤ) (r : Rect) : Prop where
  left : c.alien.w ≤ r.left
  right : r.right ≤ g.screenWidth - 2 * c.alien.w
  top : c.alien.h ≤ r.top
  bottom : r.bottom ≤ g.screenHeight - shipHeigh - 3 * c.alien.h

@[simp] theorem left_createAlien (col row : ℕ) :
    (createAlien c col row).rect.left = c.alien.w + 2 * c.alien.w * col := rfl

@[simp] theorem top_createAlien (col row : ℕ) :
    (createAlien c col row).rect.top = c.alien.h + 2 * c.alien.h * row := rfl

@[simp] theorem right_createAlien (col row : ℕ) :
    (createAlien c col row).rect.right = 2 * c.alien.w * (col + 1) := by
  show c.alien.w + 2 * c.alien.w * (col : ℤ) + c.alien.w = _
  ring

@[simp] theorem bottom_createAlien (col row : ℕ) :
    (createAlien c col row).rect.bottom = 2 * c.alien.h * (row + 1) := by
  show c.alien.h + 2 * c.alien.h * (row : ℤ) + c.alien.h = _
  ring

/-- A column is within the right margin exactly if it is one of those that are created. -/
theorem right_createAlien_le_iff {g : Settings} (col row : ℕ) :
    (createAlien c col row).rect.right ≤ g.screenWidth - 2 * c.alien.w ↔
      col < numberAliensX c g := by
  have hw : 0 < 2 * c.alien.w := by have := c.alien.w_pos; omega
  rw [right_createAlien, numberAliensX, lt_fit_iff hw]

/-- A row keeps the gap above the ship exactly if it is one of those that are created. -/
theorem bottom_createAlien_le_iff {g : Settings} {shipHeigh : ℤ} (col row : ℕ) :
    (createAlien c col row).rect.bottom ≤ g.screenHeight - shipHeigh - 3 * c.alien.h ↔
      row < numberRows c g shipHeigh := by
  have hh : 0 < 2 * c.alien.h := by have := c.alien.h_pos; omega
  rw [bottom_createAlien, numberRows, lt_fit_iff hh, sub_right_comm]

theorem withinMargins_of_mem_fleet {g : Settings} {shipHeigh : ℤ} {alien : Alien}
    (h : alien ∈ fleet c g shipHeigh) : WithinMargins c g shipHeigh alien.rect := by
  obtain ⟨row, hrow, col, hcol, rfl⟩ := mem_fleet_iff.mp h
  have hw : 0 ≤ 2 * c.alien.w * (col : ℤ) := by have := c.alien.w_pos; positivity
  have hh : 0 ≤ 2 * c.alien.h * (row : ℤ) := by have := c.alien.h_pos; positivity
  constructor
  · rw [left_createAlien]
    exact le_add_of_nonneg_right hw
  · rw [right_createAlien]
    exact hcol
  · rw [top_createAlien]
    exact le_add_of_nonneg_right hh
  · rw [bottom_createAlien, sub_right_comm]
    exact hrow

/-- Between a column and a later one there is the width of an alien. -/
theorem right_lt_left {col col' : ℕ} (h : col < col') (row row' : ℕ) :
    (createAlien c col row).rect.right < (createAlien c col' row').rect.left := by
  rw [right_createAlien, left_createAlien]
  have hpos := c.alien.w_pos
  have hcol : (col : ℤ) + 1 ≤ col' := by exact_mod_cast h
  nlinarith

/-- Between a row and a later one there is the height of an alien. -/
theorem bottom_lt_top {row row' : ℕ} (h : row < row') (col col' : ℕ) :
    (createAlien c col row).rect.bottom < (createAlien c col' row').rect.top := by
  rw [bottom_createAlien, top_createAlien]
  have hpos := c.alien.h_pos
  have hrow : (row : ℤ) + 1 ≤ row' := by exact_mod_cast h
  nlinarith

theorem pairwise_fleet (c : Config) (g : Settings) (shipHeigh : ℤ) :
    (fleet c g shipHeigh).Pairwise fun a b => ¬ a.rect.colliderect b.rect := by
  unfold fleet
  rw [List.pairwise_flatMap]
  constructor
  · -- the aliens of one row
    intro row _
    rw [List.pairwise_map]
    refine List.pairwise_lt_range.imp fun hcol hmeet => ?_
    exact absurd hmeet.2.1 (right_lt_left hcol row row).not_gt
  · -- two rows
    refine List.pairwise_lt_range.imp fun hrow a ha b hb hmeet => ?_
    obtain ⟨col, -, rfl⟩ := List.mem_map.mp ha
    obtain ⟨col', -, rfl⟩ := List.mem_map.mp hb
    exact absurd hmeet.2.2.2 (bottom_lt_top hrow col col').not_gt

/-- **The layout of a fleet.**  Whatever the sizes of the display, the aliens and the ship, the
aliens that are created fill `numberRows` rows and `numberAliensX` columns; no two of them share a
place and all are within the margins; a further column would break the right margin, and a further
row the gap above the ship. -/
theorem fleet_layout (c : Config) (s : State) :
    ∃ new, (createFleet c s).aliens = s.aliens ++ new ∧
      (∀ alien, alien ∈ new ↔
        ∃ row < numberRows c s.settings s.ship.rect.h, ∃ col < numberAliensX c s.settings,
          createAlien c col row = alien) ∧
      (new.Pairwise fun a b => ¬ a.rect.colliderect b.rect) ∧
      (∀ alien ∈ new, WithinMargins c s.settings s.ship.rect.h alien.rect) ∧
      (∀ row, s.settings.screenWidth - 2 * c.alien.w <
        (createAlien c (numberAliensX c s.settings) row).rect.right) ∧
      ∀ col, s.settings.screenHeight - s.ship.rect.h - 3 * c.alien.h <
        (createAlien c col (numberRows c s.settings s.ship.rect.h)).rect.bottom := by
  refine ⟨fleet c s.settings s.ship.rect.h, rfl, fun alien => mem_fleet_iff_lt,
    pairwise_fleet c _ _, fun alien h => withinMargins_of_mem_fleet h, fun row => ?_,
    fun col => ?_⟩
  · exact not_le.mp (mt (right_createAlien_le_iff _ row).mp (lt_irrefl _))
  · exact not_le.mp (mt (bottom_createAlien_le_iff col _).mp (lt_irrefl _))

/-- A new fleet is at no edge of the display. -/
theorem not_checkEdges_of_mem_fleet (hs : Placed c s) {shipHeigh : ℤ} {alien : Alien}
    (h : alien ∈ fleet c s.settings shipHeigh) : ¬ alien.CheckEdges s.display := by
  obtain ⟨row, -, col, hcol, rfl⟩ := mem_fleet_iff.mp h
  have hpos := c.alien.w_pos
  rw [hs.width] at hcol
  rintro (hright | hleft)
  · have hright : 0 + s.display.w ≤ c.alien.w + 2 * c.alien.w * col + c.alien.w := hright
    nlinarith
  · have hleft : c.alien.w + 2 * c.alien.w * col ≤ 0 := hleft
    nlinarith

/-- A new fleet is not at the bottom of the display. -/
theorem bottom_lt_of_mem_fleet (hs : Placed c s) {alien : Alien}
    (h : alien ∈ fleet c s.settings s.ship.rect.h) :
    alien.rect.bottom < (Rect.ofSize s.display).bottom := by
  obtain ⟨row, hrow, col, -, rfl⟩ := mem_fleet_iff.mp h
  have hpos := c.alien.h_pos
  have hship := c.ship.h_pos
  rw [hs.height, hs.shipHeight] at hrow
  show c.alien.h + 2 * c.alien.h * row + c.alien.h < 0 + s.display.h
  nlinarith

end AlienInvasion
end CodeStrudy
