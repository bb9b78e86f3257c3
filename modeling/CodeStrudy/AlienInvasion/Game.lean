import CodeStrudy.Foundation.Machine
import CodeStrudy.Foundation.Rect

/-!
# The Alien Invasion game

`python/alien_invasion`: a ship at the bottom of the display shoots at a fleet of aliens that moves
from edge to edge and drops a little at every turn.  `run_game` repeats one iteration for ever: it
handles the events that have come in, and if the game is active it moves the ship, the bullets and
the fleet and looks for collisions.

The model is a machine that takes one part of an iteration as a step.  Positions and speeds that the
program keeps as floating point numbers are rational here, and get into the rectangles by truncation
toward zero.  The rectangle of the display that the ship is kept in is the one that the window had
when the ship was made; the fleet is laid out by the sizes in the settings, which follow the display
when it goes to full screen.

Beside the program's own data a state carries a history that no step looks at: what the ship and the
fleet were directly after the last fleet was created, the statistics at the head of the iteration,
how many ships have been taken away in this iteration, and whether the fleet turned in each frame.

## What is proved

* `effect_of_step`: what each step does.  All that is proved about runs of the game goes through
  it.
-/

namespace CodeStrudy
namespace AlienInvasion

open Foundation

/-- The sizes of the two images, and of the display in a window and in full screen. -/
structure Config where
  ship : Size
  alien : Size
  window : Size
  full : Size

/-! ## Settings and statistics -/

def shipLimit : ℤ := 3

def bulletWidth : ℤ := 3

def bulletHeigh : ℤ := 15

def bulletAllowed : ℕ := 3

def alienDropSpeed : ℤ := 10

def speedupScale : ℚ := 11 / 10

/-- The settings that change. -/
structure Settings where
  screenWidth : ℤ
  screenHeight : ℤ
  shipSpeed : ℚ
  bulletSpeed : ℚ
  alienSpeed : ℚ
  /-- 1 to the right, -1 to the left. -/
  fleetDirection : ℤ
  deriving DecidableEq

namespace Settings

def initializeDynamicSettings (g : Settings) : Settings :=
  { g with shipSpeed := 3 / 2, bulletSpeed := 3, alienSpeed := 1, fleetDirection := 1 }

def increaseSpeed (g : Settings) : Settings :=
  { g with
    shipSpeed := g.shipSpeed * speedupScale
    bulletSpeed := g.bulletSpeed * speedupScale
    alienSpeed := g.alienSpeed * speedupScale }

end Settings

structure Stats where
  shipsLeft : ℤ
  gameActive : Bool
  deriving DecidableEq

/-! ## Ship, aliens and bullets -/

structure Ship where
  rect : Rect
  x : ℚ
  movingRight : Bool
  movingLeft : Bool
  deriving DecidableEq

namespace Ship

/-- The rectangle of the display, as the ship found it. -/
def screenRect (c : Config) : Rect := Rect.ofSize c.window

def centerShip (c : Config) (ship : Ship) : Ship :=
  { ship with
    rect := ship.rect.setMidbottom (screenRect c).midbottom
    x := (ship.rect.setMidbottom (screenRect c).midbottom).x }

/-- The ship as it is made. -/
def new (c : Config) : Ship := centerShip c ⟨Rect.ofSize c.ship, 0, false, false⟩

/-- Whether `update` moves the ship to the right. -/
def GoesRight (c : Config) (ship : Ship) : Prop :=
  ship.movingRight = true ∧ ship.rect.right < (screenRect c).right

/-- Whether `update` moves the ship to the left. -/
def GoesLeft (ship : Ship) : Prop := ship.movingLeft = true ∧ 0 < ship.rect.left

instance (c : Config) (ship : Ship) : Decidable (ship.GoesRight c) :=
  inferInstanceAs (Decidable (_ ∧ _))

instance (ship : Ship) : Decidable ship.GoesLeft := inferInstanceAs (Decidable (_ ∧ _))

/-- The position after `update`, as a fraction. -/
def nextX (c : Config) (speed : ℚ) (ship : Ship) : ℚ :=
  ship.x + (if ship.GoesRight c then speed else 0) - (if ship.GoesLeft then speed else 0)

def update (c : Config) (speed : ℚ) (ship : Ship) : Ship :=
  { ship with
    x := ship.nextX c speed
    rect := { ship.rect with x := trunc (ship.nextX c speed) } }

end Ship

structure Alien where
  rect : Rect
  x : ℚ
  deriving DecidableEq

namespace Alien

/-- `speed` is the speed of the fleet times its direction. -/
def update (speed : ℚ) (alien : Alien) : Alien where
  x := alien.x + speed
  rect := { alien.rect with x := trunc (alien.x + speed) }

def CheckEdges (display : Size) (alien : Alien) : Prop :=
  (Rect.ofSize display).right ≤ alien.rect.right ∨ alien.rect.left ≤ 0

instance (display : Size) (alien : Alien) : Decidable (alien.CheckEdges display) :=
  inferInstanceAs (Decidable (_ ∨ _))

/-- The alien moved down when the fleet turns. -/
def drop (alien : Alien) : Alien :=
  { alien with rect := { alien.rect with y := alien.rect.y + alienDropSpeed } }

end Alien

structure Bullet where
  rect : Rect
  y : ℚ
  deriving DecidableEq

namespace Bullet

def new (ship : Ship) : Bullet where
  rect := Rect.setMidtop ⟨0, 0, bulletWidth, bulletHeigh⟩ ship.rect.midtop
  y := (Rect.setMidtop ⟨0, 0, bulletWidth, bulletHeigh⟩ ship.rect.midtop).y

def update (speed : ℚ) (bullet : Bullet) : Bullet where
  y := bullet.y - speed
  rect := { bullet.rect with y := trunc (bullet.y - speed) }

end Bullet

/-- The Play button, in the middle of the window. -/
def playButton (c : Config) : Rect :=
  Rect.setCenter ⟨0, 0, 200, 50⟩ (Rect.ofSize c.window).center

/-! ## The state of the game -/

/-- The parts of an iteration: the events; the ship's update; the update of the bullets; the fleet's
turn and update; the two checks for a hit; the drawing.  `exited` is past `sys.exit`. -/
inductive Phase where
  | events
  | ship
  | bullets
  | aliens
  | collide
  | bottom
  | screen
  | exited
  deriving DecidableEq

/-- What is remembered of the run. -/
structure History where
  /-- The ship's rectangle and the aliens, directly after the last fleet was created. -/
  created : Rect × List Alien
  /-- The statistics at the head of this iteration. -/
  atHead : Stats
  /-- The ships taken away in this iteration. -/
  charged : ℕ
  /-- Whether the fleet turned, for each frame in which it was updated, the last one first. -/
  turns : List Bool
  deriving DecidableEq

structure State where
  phase : Phase
  /-- The size of the display. -/
  display : Size
  settings : Settings
  stats : Stats
  ship : Ship
  bullets : List Bullet
  aliens : List Alien
  hist : History
  deriving DecidableEq

inductive Key where
  | right
  | left
  | q
  | f
  | space
  | other
  deriving DecidableEq

inductive Event where
  | quit
  | keyDown (key : Key)
  | keyUp (key : Key)
  | mouseButtonDown (pos : ℤ × ℤ)
  | other
  deriving DecidableEq

/-- A step: the next event of this iteration, or the next part of it. -/
inductive Label where
  | event (e : Event)
  | go
  deriving DecidableEq

/-! ## Creating a fleet -/

def createAlien (c : Config) (alienNumber rowNumber : ℕ) : Alien where
  rect := ⟨c.alien.w + 2 * c.alien.w * alienNumber, c.alien.h + 2 * c.alien.h * rowNumber,
    c.alien.w, c.alien.h⟩
  x := (c.alien.w + 2 * c.alien.w * alienNumber : ℤ)

def numberAliensX (c : Config) (g : Settings) : ℕ :=
  fit (g.screenWidth - 2 * c.alien.w) (2 * c.alien.w)

def numberRows (c : Config) (g : Settings) (shipHeigh : ℤ) : ℕ :=
  fit (g.screenHeight - 3 * c.alien.h - shipHeigh) (2 * c.alien.h)

/-- The aliens of a new fleet. -/
def fleet (c : Config) (g : Settings) (shipHeigh : ℤ) : List Alien :=
  (List.range (numberRows c g shipHeigh)).flatMap fun rowNumber =>
    (List.range (numberAliensX c g)).map fun alienNumber => createAlien c alienNumber rowNumber

/-- `_create_fleet`: the new aliens join those that are there. -/
def createFleet (c : Config) (s : State) : State :=
  { s with
    aliens := s.aliens ++ fleet c s.settings s.ship.rect.h
    hist := { s.hist with
      created := (s.ship.rect, s.aliens ++ fleet c s.settings s.ship.rect.h) } }

def centerShip (c : Config) (s : State) : State := { s with ship := s.ship.centerShip c }

/-- `aliens.empty()` and `buttles.empty()` -/
def empty (s : State) : State := { s with aliens := [], bullets := [] }

/-! ## Events -/

def setFullScreen (c : Config) (s : State) : State :=
  { s with
    display := c.full
    settings := { s.settings with screenWidth := c.full.w, screenHeight := c.full.h } }

def fireBullet (s : State) : State :=
  if s.bullets.length < bulletAllowed then { s with bullets := s.bullets ++ [Bullet.new s.ship] }
  else s

/-- A click that starts a new game. -/
def Plays (c : Config) (s : State) (pos : ℤ × ℤ) : Prop :=
  (playButton c).collidepoint pos ∧ s.stats.gameActive = false

instance (c : Config) (s : State) (pos : ℤ × ℤ) : Decidable (Plays c s pos) :=
  inferInstanceAs (Decidable (_ ∧ _))

/-- A new game is started. -/
def play (c : Config) (s : State) : State :=
  centerShip c <| createFleet c <| empty
    { s with settings := s.settings.initializeDynamicSettings, stats := ⟨shipLimit, true⟩ }

def checkPlayButton (c : Config) (pos : ℤ × ℤ) (s : State) : State :=
  if Plays c s pos then play c s else s

def checkKeydownEvent (c : Config) (key : Key) (s : State) : State :=
  match key with
  | .right => { s with ship := { s.ship with movingRight := true } }
  | .left => { s with ship := { s.ship with movingLeft := true } }
  | .q => { s with phase := .exited }
  | .f => setFullScreen c s
  | .space => fireBullet s
  | .other => s

def checkKeyupEvent (key : Key) (s : State) : State :=
  match key with
  | .right => { s with ship := { s.ship with movingRight := false } }
  | .left => { s with ship := { s.ship with movingLeft := false } }
  | _ => s

/-- One pass of the loop of `_check_event`. -/
def checkEvent (c : Config) (e : Event) (s : State) : State :=
  match e with
  | .quit => { s with phase := .exited }
  | .keyDown key => checkKeydownEvent c key s
  | .keyUp key => checkKeyupEvent key s
  | .mouseButtonDown pos => checkPlayButton c pos s
  | .other => s

/-! ## Bullets -/

/-- `groupcollide(bullets, aliens, True, True)`: bullet after bullet, all aliens that it meets are
removed, and the bullet too if there are any.  What is left of the two groups. -/
def groupcollide : List Bullet → List Alien → List Bullet × List Alien
  | [], aliens => ([], aliens)
  | b :: bullets, aliens =>
    if ∃ alien ∈ aliens, b.rect.colliderect alien.rect then
      groupcollide bullets (aliens.filter fun alien => ¬ b.rect.colliderect alien.rect)
    else (b :: (groupcollide bullets aliens).1, (groupcollide bullets aliens).2)

theorem mem_of_mem_groupcollide {bullets : List Bullet} {aliens : List Alien} {alien : Alien}
    (h : alien ∈ (groupcollide bullets aliens).2) : alien ∈ aliens := by
  induction bullets generalizing aliens with
  | nil => exact h
  | cons b bullets ih =>
    rw [groupcollide] at h
    split at h
    · exact List.mem_of_mem_filter (ih h)
    · exact ih h

/-- The bullets after their update, without those that have left the display. -/
def movedBullets (s : State) : List Bullet :=
  (s.bullets.map (Bullet.update s.settings.bulletSpeed)).filter fun b => ¬ b.rect.bottom ≤ 0

/-- What the moved bullets leave of themselves and of the fleet. -/
def collisions (s : State) : List Bullet × List Alien := groupcollide (movedBullets s) s.aliens

def increaseSpeed (s : State) : State := { s with settings := s.settings.increaseSpeed }

/-- `_update_bullets`, with `_check_bullet_alien_collisions` at its end. -/
def updateBullets (c : Config) (s : State) : State :=
  if (collisions s).2 = [] then increaseSpeed (createFleet c (empty s))
  else { s with bullets := (collisions s).1, aliens := (collisions s).2 }

/-! ## Aliens -/

def changeFleetDirection (s : State) : State :=
  { s with
    aliens := s.aliens.map Alien.drop
    settings := { s.settings with fleetDirection := -s.settings.fleetDirection } }

/-- Some alien is at an edge. -/
def AtEdge (s : State) : Prop := ∃ alien ∈ s.aliens, alien.CheckEdges s.display

instance (s : State) : Decidable (AtEdge s) := inferInstanceAs (Decidable (∃ alien ∈ s.aliens, _))

/-- Whether the fleet turns in this frame is remembered. -/
def remember (turned : Bool) (s : State) : State :=
  { s with hist := { s.hist with turns := turned :: s.hist.turns } }

def checkFleetDeges (s : State) : State :=
  if AtEdge s then remember true (changeFleetDirection s) else remember false s

/-- `aliens.update()` -/
def moveAliens (s : State) : State :=
  { s with
    aliens := s.aliens.map (Alien.update (s.settings.alienSpeed * s.settings.fleetDirection)) }

/-- A ship is taken away. -/
def charge (s : State) : State :=
  { s with
    stats := { s.stats with shipsLeft := s.stats.shipsLeft - 1 }
    hist := { s.hist with charged := s.hist.charged + 1 } }

def shipHit (c : Config) (s : State) : State :=
  if 0 < s.stats.shipsLeft then centerShip c (createFleet c (empty (charge s)))
  else { s with stats := { s.stats with gameActive := false } }

/-- `spritecollideany(ship, aliens)` -/
def Collides (s : State) : Prop := ∃ alien ∈ s.aliens, s.ship.rect.colliderect alien.rect

instance (s : State) : Decidable (Collides s) :=
  inferInstanceAs (Decidable (∃ alien ∈ s.aliens, _))

/-- Some alien has reached the bottom of the display. -/
def AtBottom (s : State) : Prop :=
  ∃ alien ∈ s.aliens, (Rect.ofSize s.display).bottom ≤ alien.rect.bottom

instance (s : State) : Decidable (AtBottom s) :=
  inferInstanceAs (Decidable (∃ alien ∈ s.aliens, _))

def checkCollision (c : Config) (s : State) : State := if Collides s then shipHit c s else s

def checkAliensBottom (c : Config) (s : State) : State := if AtBottom s then shipHit c s else s

/-! ## The main loop -/

/-- `__init__` -/
def initial (c : Config) : State :=
  createFleet c
    { phase := .events
      display := c.window
      settings := Settings.initializeDynamicSettings ⟨c.window.w, c.window.h, 0, 0, 0, 0⟩
      stats := ⟨shipLimit, false⟩
      ship := Ship.new c
      bullets := []
      aliens := []
      hist := ⟨(Rect.ofSize c.ship, []), ⟨shipLimit, false⟩, 0, []⟩ }

/-- The head of the loop. -/
def beginIteration (s : State) : State :=
  { s with phase := .events, hist := { s.hist with atHead := s.stats, charged := 0 } }

/-- The next part of an iteration of `run_game`. -/
def runGame (c : Config) (s : State) : Option State :=
  match s.phase with
  | .events => some { s with phase := if s.stats.gameActive then .ship else .screen }
  | .ship => some { s with ship := s.ship.update c s.settings.shipSpeed, phase := .bullets }
  | .bullets => some { updateBullets c s with phase := .aliens }
  | .aliens => some { moveAliens (checkFleetDeges s) with phase := .collide }
  | .collide => some { checkCollision c s with phase := .bottom }
  | .bottom => some { checkAliensBottom c s with phase := .screen }
  | .screen => some (beginIteration s)
  | .exited => none

def step (c : Config) (s : State) (a : Label) : Option State :=
  match a with
  | .event e => if s.phase = .events then some (checkEvent c e s) else none
  | .go => runGame c s

def machine (c : Config) : Machine State Label where
  init s := s = initial c
  step := step c

/-- A window of 6 by 10, a full screen of 20 by 30, a ship of 2 by 2 and aliens of 1 by 1. -/
def smallWindow : Config where
  ship := ⟨2, 2, by decide, by decide⟩
  alien := ⟨1, 1, by decide, by decide⟩
  window := ⟨6, 10, by decide, by decide⟩
  full := ⟨20, 30, by decide, by decide⟩

/-- A window for two rows of two aliens that are as wide as a bullet. -/
def twoRows : Config where
  ship := ⟨2, 2, by decide, by decide⟩
  alien := ⟨3, 14, by decide, by decide⟩
  window := ⟨20, 100, by decide, by decide⟩
  full := ⟨20, 100, by decide, by decide⟩

/-- A click, keys that are pressed, and `n` parts of iterations. -/
def played (pos : ℤ × ℤ) (keys : List Key) (n : ℕ) : List Label :=
  .event (.mouseButtonDown pos) :: keys.map (fun key => .event (.keyDown key)) ++
    List.replicate n .go

/-! ## What each step does -/

/-- The event concerns only what the keys hold, the bullets, and whether the program goes on. -/
structure Idle (s t : State) : Prop where
  phase : t.phase = s.phase ∨ t.phase = .exited
  display : t.display = s.display
  settings : t.settings = s.settings
  stats : t.stats = s.stats
  rect : t.ship.rect = s.ship.rect
  x : t.ship.x = s.ship.x
  aliens : t.aliens = s.aliens
  hist : t.hist = s.hist

variable {c : Config} {s t : State} {a : Label}

theorem Idle.refl (s : State) : Idle s s :=
  { phase := .inl rfl, display := rfl, settings := rfl, stats := rfl, rect := rfl, x := rfl
    aliens := rfl, hist := rfl }

theorem idle_fireBullet (s : State) : Idle s (fireBullet s) := by
  unfold fireBullet
  split
  · exact { Idle.refl s with }
  · exact Idle.refl s

/-- One of the two checks for a hit finds one; `p` is what comes after it. -/
def Hit (s : State) (p : Phase) : Prop :=
  (s.phase = .collide ∧ Collides s ∧ p = .bottom) ∨ (s.phase = .bottom ∧ AtBottom s ∧ p = .screen)

/-- One of the two checks for a hit finds none; `p` is what comes after it. -/
def Missed (s : State) (p : Phase) : Prop :=
  (s.phase = .collide ∧ ¬ Collides s ∧ p = .bottom) ∨
    (s.phase = .bottom ∧ ¬ AtBottom s ∧ p = .screen)

/-- What a step does, one line for each kind. -/
inductive Effect (c : Config) (s : State) : Label → State → Prop
  | idle {e : Event} {t : State} (hphase : s.phase = .events) (hf : e ≠ .keyDown .f)
      (hplay : ∀ pos, e = .mouseButtonDown pos → ¬ Plays c s pos) (h : Idle s t) :
      Effect c s (.event e) t
  | fullScreen (hphase : s.phase = .events) :
      Effect c s (.event (.keyDown .f)) (setFullScreen c s)
  | play {pos : ℤ × ℤ} (hphase : s.phase = .events) (h : Plays c s pos) :
      Effect c s (.event (.mouseButtonDown pos)) (play c s)
  | frame (hphase : s.phase = .events) :
      Effect c s .go { s with phase := if s.stats.gameActive then .ship else .screen }
  | ship (hphase : s.phase = .ship) :
      Effect c s .go { s with ship := s.ship.update c s.settings.shipSpeed, phase := .bullets }
  | cleared (hphase : s.phase = .bullets) (h : (collisions s).2 = []) :
      Effect c s .go { increaseSpeed (createFleet c (empty s)) with phase := .aliens }
  | shot (hphase : s.phase = .bullets) (h : (collisions s).2 ≠ []) :
      Effect c s .go
        { s with bullets := (collisions s).1, aliens := (collisions s).2, phase := .aliens }
  | turned (hphase : s.phase = .aliens) (h : AtEdge s) :
      Effect c s .go
        { moveAliens (remember true (changeFleetDirection s)) with phase := .collide }
  | ahead (hphase : s.phase = .aliens) (h : ¬ AtEdge s) :
      Effect c s .go { moveAliens (remember false s) with phase := .collide }
  | charged {p : Phase} (hhit : Hit s p) (hpos : 0 < s.stats.shipsLeft) :
      Effect c s .go { centerShip c (createFleet c (empty (charge s))) with phase := p }
  | lost {p : Phase} (hhit : Hit s p) (hpos : ¬ 0 < s.stats.shipsLeft) :
      Effect c s .go { s with stats := { s.stats with gameActive := false }, phase := p }
  | missed {p : Phase} (hmissed : Missed s p) : Effect c s .go { s with phase := p }
  | screen (hphase : s.phase = .screen) : Effect c s .go (beginIteration s)

theorem effect_of_event (c : Config) (e : Event) {s : State} (hphase : s.phase = .events) :
    Effect c s (.event e) (checkEvent c e s) := by
  rcases e with _ | key | key | pos | _
  · refine .idle hphase Event.noConfusion (fun _ h => nomatch h) { Idle.refl s with phase := ?_ }
    exact .inr rfl
  · cases key with
    | f => exact .fullScreen hphase
    | space =>
      exact .idle hphase (by decide) (fun _ h => nomatch h) (idle_fireBullet s)
    | q =>
      refine .idle hphase (by decide) (fun _ h => nomatch h) { Idle.refl s with phase := ?_ }
      exact .inr rfl
    | _ => exact .idle hphase (by decide) (fun _ h => nomatch h) { Idle.refl s with }
  · cases key <;>
      exact .idle hphase Event.noConfusion (fun _ h => nomatch h) { Idle.refl s with }
  · by_cases h : Plays c s pos
    · rw [checkEvent, checkPlayButton, if_pos h]
      exact .play hphase h
    · rw [checkEvent, checkPlayButton, if_neg h]
      exact .idle hphase Event.noConfusion (fun _ heq => by cases heq; exact h) (Idle.refl s)
  · exact .idle hphase Event.noConfusion (fun _ h => nomatch h) (Idle.refl s)

/-- A check for a hit charges a ship, ends the game, or does nothing. -/
theorem effect_of_check (c : Config) {s : State} {p : Phase} {P : Prop} [Decidable P]
    (hhit : P → Hit s p) (hmissed : ¬ P → Missed s p) :
    Effect c s .go { (if P then shipHit c s else s) with phase := p } := by
  by_cases h : P
  · rw [if_pos h, shipHit]
    by_cases hpos : 0 < s.stats.shipsLeft
    · rw [if_pos hpos]
      exact .charged (hhit h) hpos
    · rw [if_neg hpos]
      exact .lost (hhit h) hpos
  · rw [if_neg h]
    exact .missed (hmissed h)

theorem effect_of_runGame (h : runGame c s = some t) : Effect c s .go t := by
  unfold runGame at h
  split at h
  case h_1 hphase => exact Option.some.inj h ▸ .frame hphase
  case h_2 hphase => exact Option.some.inj h ▸ .ship hphase
  case h_3 hphase =>
    obtain rfl := Option.some.inj h
    by_cases hleft : (collisions s).2 = []
    · rw [updateBullets, if_pos hleft]
      exact .cleared hphase hleft
    · rw [updateBullets, if_neg hleft]
      exact .shot hphase hleft
  case h_4 hphase =>
    obtain rfl := Option.some.inj h
    by_cases hedge : AtEdge s
    · rw [checkFleetDeges, if_pos hedge]
      exact .turned hphase hedge
    · rw [checkFleetDeges, if_neg hedge]
      exact .ahead hphase hedge
  case h_5 hphase =>
    exact Option.some.inj h ▸
      effect_of_check c (fun hP => .inl ⟨hphase, hP, rfl⟩) fun hP => .inl ⟨hphase, hP, rfl⟩
  case h_6 hphase =>
    exact Option.some.inj h ▸
      effect_of_check c (fun hP => .inr ⟨hphase, hP, rfl⟩) fun hP => .inr ⟨hphase, hP, rfl⟩
  case h_7 hphase => exact Option.some.inj h ▸ .screen hphase
  case h_8 => cases h

/-- **What a step does.** -/
theorem effect_of_step (h : step c s a = some t) : Effect c s a t := by
  cases a with
  | event e =>
    obtain ⟨hphase, heq⟩ := Option.ite_none_right_eq_some.mp h
    exact Option.some.inj heq ▸ effect_of_event c e hphase
  | go => exact effect_of_runGame h

end AlienInvasion
end CodeStrudy
